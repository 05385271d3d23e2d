import HeaderRelay.Params

set_option autoImplicit false

namespace HeaderRelay.MedianTime

/-- Inserts a timestamp after those that are not smaller. -/
def insertSorted (timestamp : Int) : List Int → List Int
  | [] => [timestamp]
  | newer :: rest =>
    if timestamp ≤ newer then newer :: insertSorted timestamp rest
    else timestamp :: newer :: rest

/-- Inserts a timestamp and drops what exceeds the span at the old end. -/
def insert (params : Params) (timestamp : Int) (window : List Int) : List Int :=
  (insertSorted timestamp window).take params.span

/-- The middle timestamp of a window; an empty one has the median of the network's first block. -/
def median (params : Params) (window : List Int) : Int :=
  window[window.length / 2]?.getD params.medianTimeEpoch.toNat

def isNewestFirst : List Int → Bool
  | newer :: older :: rest => older ≤ newer && isNewestFirst (older :: rest)
  | _ => true

end HeaderRelay.MedianTime
