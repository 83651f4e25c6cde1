import OnlDaemons.Lib.Run
import OnlDaemons.Npr.IndexList
import Mathlib.Logic.Function.Basic
import Mathlib.Data.List.MinMax
import Mathlib.Data.Nat.Bitwise

/-!
# The NPR configuration: TCAM layout, routes and filters

`Configuration` of the NPR daemon hands out TCAM and SRAM indices for routes, primary filters
(pfilters) and auxiliary filters (afilters). An entry lives in the TCAM database of its kind;
its SRAM result also holds the TCAM index, which is how a delete finds the index again.

The TCAM library behind the TCAM daemon is not part of the sources; `SearchMachine` is what
the daemon relies on.

## Main definitions

- `Pool`, `layout` — the free lists and the interval `start_router` gives each of them
- `addRoute`, `delRoute`, `addPfilter`, `delPfilter`, `addAfilter`, `delAfilter`
- `startRouter` — the state `start_router` leaves when it returns normally
- `Op`, `Step` — one call that returns normally
-/

namespace OnlDaemons.Npr
open OnlDaemons.Lib OnlDaemons.Lib.RangeList

def resultUnitSize : ℕ := 16
def resultArraySize : ℕ := 0x200000
def resultNumEntries : ℕ := resultArraySize / resultUnitSize

def routeNumEntries : ℕ := 0x4000
def routeFirstIndex : ℕ := 1
def routeLastIndex : ℕ := routeNumEntries - 2
def pfilterNumEntries : ℕ := 0x8000
def pfilterFirstIndex : ℕ := 1
def pfilterLastIndex : ℕ := pfilterNumEntries - 2
def afilterNumEntries : ℕ := 0x4000
def afilterFirstIndex : ℕ := 1
def afilterLastIndex : ℕ := afilterNumEntries - 2
def arpNumEntries : ℕ := 0x4000
def arpFirstIndex : ℕ := 1
def arpLastIndex : ℕ := arpNumEntries - 2

def routeMcNumEntries : ℕ := routeNumEntries / 2
def routeMcFirstIndex : ℕ := routeFirstIndex
def routeMcLastIndex : ℕ := routeMcNumEntries - 2
def routeUcFirstIndex : ℕ := routeMcNumEntries + 1
def routeUcLastIndex : ℕ := routeLastIndex

def maxPrefixLen : ℕ := 32
def maxPriority : ℕ := 63
def routeMcNumPerClass : ℕ := (routeMcLastIndex - routeMcFirstIndex) / (maxPrefixLen + 1)
def routeUcNumPerClass : ℕ := (routeUcLastIndex - routeUcFirstIndex) / (maxPrefixLen + 1)
def pfilterNumPerClass : ℕ := (pfilterLastIndex - pfilterFirstIndex) / (maxPriority + 1)
def afilterNumPerClass : ℕ := (afilterLastIndex - afilterFirstIndex) / (maxPriority + 1)

def filterUseRoute : ℕ := 6

structure RouteKey where
  daddr : ℕ
  saddr : ℕ
  ptag : ℕ
  port : ℕ
deriving DecidableEq

/-- `pfilter_key` and `afilter_key`, which have the same fields. -/
structure FilterKey where
  daddr : ℕ
  saddr : ℕ
  ptag : ℕ
  port : ℕ
  proto : ℕ
  dport : ℕ
  sport : ℕ
  exceptions : ℕ
  tcpFlags : ℕ
  res : ℕ
deriving DecidableEq

/-- `route_result` and `pfilter_result`, which have the same fields. -/
structure RouteResult where
  entryValid : ℕ
  nhIpValid : ℕ
  nhMacValid : ℕ
  ipMcValid : ℕ
  ucMcBits : ℕ
  qid : ℕ
  statsIndex : ℕ
  nhHi16 : ℕ
  nhLow32 : ℕ
deriving DecidableEq

structure AfilterResult where
  entryValid : ℕ
  nhIpValid : ℕ
  nhMacValid : ℕ
  ipMcValid : ℕ
  sampling : ℕ
  res : ℕ
  drop : ℕ
  pps : ℕ
  outPort : ℕ
  outPlugin : ℕ
  qid : ℕ
  statsIndex : ℕ
  nhHi16 : ℕ
  nhLow32 : ℕ
deriving DecidableEq

/-- The four words at an SRAM result address: the result itself and, in the fourth word, the
TCAM index of its entry. -/
structure SramWords where
  result : RouteResult ⊕ AfilterResult
  index : ℕ

/-- The three TCAM databases of one router that hold routes and filters. -/
inductive Db
  | route
  | pfilter
  | afilter
deriving DecidableEq

/-- The word the exception texts use for an entry of the database. -/
def Db.what : Db → String
  | .route => "route"
  | .pfilter => "pfilter"
  | .afilter => "afilter"

abbrev Key : Db → Type
  | .route => RouteKey
  | .pfilter => FilterKey
  | .afilter => FilterKey

/-- The arrays of free TCAM index lists, one list for each prefix length or priority. -/
inductive Pool
  | mcRoutes (n : ℕ)
  | ucRoutes (n : ℕ)
  | pfilters (p : ℕ)
  | afilters (p : ℕ)
deriving DecidableEq

def Pool.db : Pool → Db
  | .mcRoutes _ => .route
  | .ucRoutes _ => .route
  | .pfilters _ => .pfilter
  | .afilters _ => .afilter

/-- An entry of a TCAM database. The TCAM stores `key`, `mask` and `result` at `index`;
`pool` only records which free list the index was taken from. -/
structure TcamEntry (d : Db) where
  pool : Pool
  index : ℕ
  key : Key d
  mask : Key d
  result : ℕ

/-- What the TCAM daemon relies on in the TCAM library: a successful lookup returns the
result word of some entry of the database. -/
structure SearchMachine where
  lookupFltr : (d : Db) → List (TcamEntry d) → Key d → Option ℕ
  lookup_mem : ∀ d db key word, lookupFltr d db key = some word → ∃ e ∈ db, e.result = word

def RouteKey.matches (key mask query : RouteKey) : Bool :=
  key.daddr &&& mask.daddr == query.daddr &&& mask.daddr &&
    key.saddr &&& mask.saddr == query.saddr &&& mask.saddr &&
    key.ptag &&& mask.ptag == query.ptag &&& mask.ptag &&
    key.port &&& mask.port == query.port &&& mask.port

def FilterKey.matches (key mask query : FilterKey) : Bool :=
  key.daddr &&& mask.daddr == query.daddr &&& mask.daddr &&
    key.saddr &&& mask.saddr == query.saddr &&& mask.saddr &&
    key.ptag &&& mask.ptag == query.ptag &&& mask.ptag &&
    key.port &&& mask.port == query.port &&& mask.port &&
    key.proto &&& mask.proto == query.proto &&& mask.proto &&
    key.dport &&& mask.dport == query.dport &&& mask.dport &&
    key.sport &&& mask.sport == query.sport &&& mask.sport &&
    key.exceptions &&& mask.exceptions == query.exceptions &&& mask.exceptions &&
    key.tcpFlags &&& mask.tcpFlags == query.tcpFlags &&& mask.tcpFlags &&
    key.res &&& mask.res == query.res &&& mask.res

def TcamEntry.matches : {d : Db} → TcamEntry d → Key d → Bool
  | .route, e, query => RouteKey.matches e.key e.mask query
  | .pfilter, e, query => FilterKey.matches e.key e.mask query
  | .afilter, e, query => FilterKey.matches e.key e.mask query

/-- A TCAM: the matching entry with the lowest index answers. -/
def tcam : SearchMachine where
  lookupFltr _ db query :=
    ((db.filter (fun e => e.matches query)).argmin (fun e => e.index)).map (fun e => e.result)
  lookup_mem d db query word h := by
    obtain ⟨e,he,hw⟩ := Option.map_eq_some_iff.mp h
    exact ⟨e,(List.mem_filter.mp (List.argmin_mem he)).1,hw⟩

/-- How one command exchange with the TCAM daemon ends: the write or the read on the
connection fails with an exception, the library reports an error, or the command is done. -/
inductive Exchange
  | dead (text : String)
  | fault
  | done
deriving DecidableEq

structure Configuration where
  sramFreeList : IndexList
  free : Pool → IndexList
  arps : IndexList
  srmap : List (ℕ × ℕ)
  nextId : ℕ
  sram : ℕ → SramWords
  db : (d : Db) → List (TcamEntry d)

def sramIndex2addr (index : ℕ) : ℕ := index * resultUnitSize

def sramAddr2index (addr : ℕ) : ℕ := addr / resultUnitSize

/-- The address part of a TCAM result word: its lower 21 bits. -/
def sramAddr (result : ℕ) : ℕ := result &&& 0x1fffff

/-- `Configuration::get_prefix_length`: the number of leading one bits of a 32-bit mask,
`bits` of which are still to be looked at. -/
def getPrefixLengthFrom (addrMask : ℕ) : ℕ → ℕ
  | 0 => 0
  | bits + 1 => if addrMask.testBit bits then getPrefixLengthFrom addrMask bits + 1 else 0

def getPrefixLength (addrMask : ℕ) : ℕ := getPrefixLengthFrom addrMask 32

/-- `Configuration::del_sram_map`; `none` is the exception "no such addr in list!". -/
def delSramMap (addr : ℕ) : List (ℕ × ℕ) → Option (List (ℕ × ℕ))
  | [] => none
  | node :: next => if node.1 = addr then some next else (delSramMap addr next).map (node :: ·)

def Configuration.setFree (c : Configuration) (pool : Pool) (l : IndexList) : Configuration :=
  { c with free := Function.update c.free pool l }

def Configuration.setDb (c : Configuration) (d : Db) (l : List (TcamEntry d)) :
    Configuration :=
  { c with db := Function.update c.db d l }

/-- The body shared by `add_route`, `add_pfilter` and `add_afilter`: take a TCAM index from
`pool` and an SRAM index, write the SRAM result and send the entry to the TCAM daemon. `word`
makes the TCAM result word out of the SRAM address. -/
def addEntry (d : Db) (pool : Pool) (key mask : Key d) (word : ℕ → ℕ)
    (result : RouteResult ⊕ AfilterResult) (x : Exchange) (c : Configuration) :
    Except String Unit × Configuration :=
  match getFreeIndex (c.free pool) with
  | none => (.error "no more free TCAM entries", c)
  | some (tcamIndex, l) =>
    let c := c.setFree pool l
    match getFreeIndex c.sramFreeList with
    | none => (.error "no more free TCAM entries", c)
    | some (sramIndex, l) =>
      let addr := sramIndex2addr sramIndex
      let c := { c with
        sramFreeList := l
        srmap := (addr, c.nextId) :: c.srmap
        nextId := c.nextId + 1
        sram := Function.update c.sram addr ⟨result, tcamIndex⟩ }
      match x with
      | .dead text => (.error text, c)
      | .fault => (.error ("adding the " ++ d.what ++ " failed!"), c)
      | .done => (.ok (), c.setDb d (⟨pool, tcamIndex, key, mask, word addr⟩ :: c.db d))

/-- The body shared by `del_route`, `del_pfilter` and `del_afilter`: look the key up, read the
TCAM index back from SRAM, delete the entry and free both indices. `poolOf` recomputes the
free list from the TCAM index. The length of an answer is checked before its code, and the answer
to a query that found nothing is short. -/
def delEntry (sm : SearchMachine) (d : Db) (poolOf : ℕ → Pool) (key : Key d)
    (query delete : Exchange) (c : Configuration) : Except String Unit × Configuration :=
  match query with
  | .dead text => (.error text, c)
  | .fault => (.error "response from tcamd too small", c)
  | .done =>
    match sm.lookupFltr d (c.db d) key with
    | none => (.error "response from tcamd too small", c)
    | some result =>
      let addr := sramAddr result
      let sramIndex := sramAddr2index addr
      let tcamIndex := (c.sram addr).index
      match delete with
      | .dead text => (.error text, c)
      | .fault => (.error ("deleting the " ++ d.what ++ " failed!"), c)
      | .done =>
        let c := c.setDb d ((c.db d).filter (fun e => e.index ≠ tcamIndex))
        let c := { c with sramFreeList := addFreeIndex sramIndex c.sramFreeList }
        let c := c.setFree (poolOf tcamIndex) (addFreeIndex tcamIndex (c.free (poolOf tcamIndex)))
        match delSramMap addr c.srmap with
        | none => (.error "no such addr in list!", c)
        | some m => (.ok (), { c with srmap := m })

/-- The list `add_route` takes the TCAM index from. -/
def addRoutePool (mask : RouteKey) (result : RouteResult) : Pool :=
  if result.ipMcValid = 1 then .mcRoutes (getPrefixLength mask.saddr)
  else .ucRoutes (getPrefixLength mask.daddr)

/-- The list `del_route` gives a TCAM index back to. -/
def delRoutePool (tcamindex : ℕ) : Pool :=
  if routeMcFirstIndex ≤ tcamindex ∧ tcamindex ≤ routeMcLastIndex then
    let prefixLen := maxPrefixLen - (tcamindex - routeMcFirstIndex) / routeMcNumPerClass
    .mcRoutes (if prefixLen = 1 ∧ tcamindex = routeMcFirstIndex + routeMcNumPerClass * maxPrefixLen - 1
      then 0 else prefixLen)
  else
    let prefixLen := maxPrefixLen - (tcamindex - routeUcFirstIndex) / routeUcNumPerClass
    .ucRoutes (if prefixLen = 1 ∧ tcamindex = routeUcFirstIndex + routeUcNumPerClass * maxPrefixLen - 1
      then 0 else prefixLen)

/-- The list `del_pfilter` gives a TCAM index back to. -/
def delPfilterPool (tcamindex : ℕ) : Pool :=
  .pfilters (maxPriority - (tcamindex - pfilterFirstIndex) / pfilterNumPerClass)

/-- The list `del_afilter` gives a TCAM index back to. -/
def delAfilterPool (tcamindex : ℕ) : Pool :=
  .afilters (maxPriority - (tcamindex - afilterFirstIndex) / afilterNumPerClass)

/-- The TCAM result word `add_pfilter` stores: priority and SRAM address, and a flag for
filters that take their output port from the route. -/
def pfilterWord (priority : ℕ) (result : RouteResult) (addr : ℕ) : ℕ :=
  let word := priority <<< 21 ||| addr
  if result.ipMcValid = 0 ∧ (result.ucMcBits >>> 3) &&& 0x7 = filterUseRoute then
    1 <<< 28 ||| word
  else word

def afilterWord (result : AfilterResult) (addr : ℕ) : ℕ :=
  if result.outPort = filterUseRoute then 1 <<< 28 ||| addr else addr

def addRoute (key mask : RouteKey) (result : RouteResult) (x : Exchange) (c : Configuration) :
    Except String Unit × Configuration :=
  addEntry .route (addRoutePool mask result) key mask id (.inl result) x c

def delRoute (sm : SearchMachine) (key : RouteKey) (query delete : Exchange)
    (c : Configuration) : Except String Unit × Configuration :=
  delEntry sm .route delRoutePool key query delete c

def addPfilter (key mask : FilterKey) (priority : ℕ) (result : RouteResult) (x : Exchange)
    (c : Configuration) : Except String Unit × Configuration :=
  if priority > maxPriority then (.error "invalid priority", c)
  else addEntry .pfilter (.pfilters priority) key mask (pfilterWord priority result)
    (.inl result) x c

def delPfilter (sm : SearchMachine) (key : FilterKey) (query delete : Exchange)
    (c : Configuration) : Except String Unit × Configuration :=
  delEntry sm .pfilter delPfilterPool key query delete c

def addAfilter (key mask : FilterKey) (priority : ℕ) (result : AfilterResult) (x : Exchange)
    (c : Configuration) : Except String Unit × Configuration :=
  if priority > maxPriority then (.error "invalid priority", c)
  else addEntry .afilter (.afilters priority) key mask (afilterWord result) (.inr result) x c

def delAfilter (sm : SearchMachine) (key : FilterKey) (query delete : Exchange)
    (c : Configuration) : Except String Unit × Configuration :=
  delEntry sm .afilter delAfilterPool key query delete c

/-- The TCAM interval `start_router` puts on each free list; `none` beyond the arrays. -/
def layout : Pool → Option Range
  | .mcRoutes 0 =>
    some ⟨routeMcFirstIndex + routeMcNumPerClass * (maxPrefixLen - 1) + routeMcNumPerClass - 2 + 1,
      routeMcFirstIndex + routeMcNumPerClass * (maxPrefixLen - 1) + routeMcNumPerClass - 2 + 1⟩
  | .mcRoutes 1 =>
    some ⟨routeMcFirstIndex + routeMcNumPerClass * (maxPrefixLen - 1),
      routeMcFirstIndex + routeMcNumPerClass * (maxPrefixLen - 1) + routeMcNumPerClass - 2⟩
  | .mcRoutes i =>
    if i ≤ maxPrefixLen then
      some ⟨routeMcFirstIndex + routeMcNumPerClass * (maxPrefixLen - i),
        routeMcFirstIndex + routeMcNumPerClass * (maxPrefixLen - i) + routeMcNumPerClass - 1⟩
    else none
  | .ucRoutes 0 =>
    some ⟨routeUcFirstIndex + routeUcNumPerClass * (maxPrefixLen - 0) + routeUcNumPerClass - 2 + 1,
      routeUcFirstIndex + routeUcNumPerClass * (maxPrefixLen - 0) + routeUcNumPerClass - 2 + 1⟩
  -- the unicast list for length 1 starts one class later than the multicast one
  | .ucRoutes 1 =>
    some ⟨routeUcFirstIndex + routeUcNumPerClass * (maxPrefixLen - 0),
      routeUcFirstIndex + routeUcNumPerClass * (maxPrefixLen - 0) + routeUcNumPerClass - 2⟩
  | .ucRoutes i =>
    if i ≤ maxPrefixLen then
      some ⟨routeUcFirstIndex + routeUcNumPerClass * (maxPrefixLen - i),
        routeUcFirstIndex + routeUcNumPerClass * (maxPrefixLen - i) + routeUcNumPerClass - 1⟩
    else none
  | .pfilters i =>
    if i ≤ maxPriority then
      some ⟨pfilterFirstIndex + pfilterNumPerClass * i,
        pfilterFirstIndex + pfilterNumPerClass * i + pfilterNumPerClass - 1⟩
    else none
  | .afilters i =>
    if i ≤ maxPriority then
      some ⟨afilterFirstIndex + afilterNumPerClass * i,
        afilterFirstIndex + afilterNumPerClass * i + afilterNumPerClass - 1⟩
    else none

def noResult : RouteResult := ⟨0, 0, 0, 0, 0, 0, 0, 0, 0⟩

/-- The index lists as `start_router` sets them up, before the default filters. -/
def startLists (srmap : List (ℕ × ℕ)) (nextId : ℕ) (sram : ℕ → SramWords) : Configuration where
  sramFreeList := [⟨1, resultNumEntries - 2⟩]
  free := fun pool => (layout pool).toList
  arps := [⟨arpFirstIndex, arpLastIndex⟩]
  srmap := srmap
  nextId := nextId
  sram := sram
  db := fun _ => []

def defFilterKey (exceptions : ℕ) : FilterKey := ⟨0, 0, 0, 0, 0, 0, 0, exceptions, 0, 0⟩

def defFilterResult : RouteResult where
  entryValid := 1
  nhIpValid := 0
  nhMacValid := 1
  ipMcValid := 0
  ucMcBits := 1 <<< 6 ||| 0x5
  qid := 0
  statsIndex := 0xffff
  nhHi16 := 0
  nhLow32 := 0

/-- One of the default filters `start_router` ends with; `none` is an exception. -/
def addDefFilter (exceptions : ℕ) (c : Configuration) : Option Configuration :=
  match addPfilter (defFilterKey exceptions) (defFilterKey exceptions) 60 defFilterResult .done c with
  | (.ok (), c) => some c
  | (.error _, _) => none

/-- `Configuration::start_router` when the TCAM daemon answers every command. The SRAM map
and contents are those of the time before, since it clears neither. -/
def startRouter (srmap : List (ℕ × ℕ)) (nextId : ℕ) (sram : ℕ → SramWords) :
    Option Configuration := do
  let c := startLists srmap nextId sram
  let c ← addDefFilter 1 c
  let c ← addDefFilter 2 c
  let c ← addDefFilter 4 c
  addDefFilter 8 c

inductive Op
  | addRoute (key mask : RouteKey) (result : RouteResult) (x : Exchange)
  | delRoute (key : RouteKey) (query delete : Exchange)
  | addPfilter (key mask : FilterKey) (priority : ℕ) (result : RouteResult) (x : Exchange)
  | delPfilter (key : FilterKey) (query delete : Exchange)
  | addAfilter (key mask : FilterKey) (priority : ℕ) (result : AfilterResult) (x : Exchange)
  | delAfilter (key : FilterKey) (query delete : Exchange)

def exec (sm : SearchMachine) : Op → Configuration → Except String Unit × Configuration
  | .addRoute key mask result x => addRoute key mask result x
  | .delRoute key query delete => delRoute sm key query delete
  | .addPfilter key mask priority result x => addPfilter key mask priority result x
  | .delPfilter key query delete => delPfilter sm key query delete
  | .addAfilter key mask priority result x => addAfilter key mask priority result x
  | .delAfilter key query delete => delAfilter sm key query delete

/-- A call that returns normally takes `c` to `c'`. -/
def Step (sm : SearchMachine) (c : Configuration) (op : Op) (c' : Configuration) : Prop :=
  exec sm op c = (.ok (), c')

/-- The run of a list of calls. -/
def calls (sm : SearchMachine) (c : Configuration) : List Op → List (Op × Configuration)
  | [] => []
  | op :: ops => (op,(exec sm op c).2) :: calls sm (exec sm op c).2 ops

/-- Every call of the list returns normally. -/
def returns (sm : SearchMachine) (c : Configuration) : List Op → Bool
  | [] => true
  | op :: ops =>
    match exec sm op c with
    | (.ok (), c') => returns sm c' ops
    | (.error _, _) => false

theorem isRun_calls {sm : SearchMachine} {c : Configuration} {ops : List Op}
    (h : returns sm c ops = true) : IsRun (Step sm) c (calls sm c ops) := by
  induction ops generalizing c with
  | nil => trivial
  | cons op ops ih =>
    unfold returns at h
    split at h
    · next c' hx =>
      refine ⟨by simp [Step,hx],?_⟩
      rw [hx]
      exact ih h
    · cases h

end OnlDaemons.Npr
