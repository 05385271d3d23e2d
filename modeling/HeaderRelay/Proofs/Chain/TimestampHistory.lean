import Mathlib
import HeaderRelay.Proofs.Chain.Replay
import HeaderRelay.Proofs.Chain.Run
import HeaderRelay.Proofs.Validation.MedianTime

set_option autoImplicit false

namespace HeaderRelay

namespace MedianTime

variable {params : Params} {timestamp : Int} {blocks recent times timestamps : List Int}

theorem descending_eq_descending (perm : recent.Perm times) : descending recent = descending times :=
  descending_eq_of_perm (newestFirst_descending times) ((descending_perm times).trans perm.symm)

end MedianTime

def Arrival.times (arrivals : List Arrival) : List Int :=
  arrivals.map fun arrival => (arrival.header.timestamp.toNat : Int)

namespace Snapshot

/-- Headers that are valid one after the other, each in its own interval, lead from a tip to another
one. -/
inductive LeadsTo (params : Params) (root : Snapshot) : List Arrival → Snapshot → Prop
  | start : LeadsTo params root [] root
  | next {arrivals : List Arrival} {tip later : Snapshot} {arrival : Arrival}
      (before : LeadsTo params root arrivals tip)
      (valid : tip.validate arrival.header arrival.interval params = .ok later) :
      LeadsTo params root (arrivals ++ [arrival]) later

namespace LeadsTo

variable {params : Params} {root tip later : Snapshot} {arrivals more : List Arrival}

/-- Each timestamp was inserted into the window when its header came. -/
theorem window (leads : root.LeadsTo params arrivals tip) :
    tip.recentTimestamps =
      MedianTime.insertAll params root.recentTimestamps (Arrival.times arrivals) := by
  induction leads with
  | start => rfl
  | next before valid ih =>
    obtain ⟨opens, _, grown⟩ := (validate_eq_ok.mp valid).grown
    rw [grown, extended, ih, Arrival.times, Arrival.times, MedianTime.insertAll,
      MedianTime.insertAll, List.map_append, List.foldl_append]
    rfl

/-- The timestamp of a tip is that of the last header. -/
theorem timestamp (leads : root.LeadsTo params arrivals tip) :
    tip.timestamp = (Arrival.times arrivals).getLastD root.timestamp := by
  cases leads with
  | start => rfl
  | next before valid =>
    obtain ⟨opens, _, grown⟩ := (validate_eq_ok.mp valid).grown
    rw [grown, extended, Arrival.times, List.map_append, List.map_singleton,
      List.getLastD_concat]

theorem windowed (leads : root.LeadsTo params arrivals tip) (windowed : root.Windowed)
    (span : params.span = ChainState.windowSpan) : tip.Windowed := by
  induction leads with
  | start => exact windowed
  | next before valid ih => exact ih.follows span (validate_eq_ok.mp valid)

end LeadsTo

variable {params : Params} {tip later : Snapshot} {header : Header} {interval : Interval}

end Snapshot

namespace Sample

end Sample

end HeaderRelay
