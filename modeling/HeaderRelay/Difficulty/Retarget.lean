import HeaderRelay.Difficulty.Compact

set_option autoImplicit false

namespace HeaderRelay.Difficulty

def opensPeriod (params : Params) (height : Int) : Except Failure Bool :=
  if params.difficultyAdjustmentInterval.toNat = 0 then .error .divisionByZero
  else .ok ((height + 1) % params.difficultyAdjustmentInterval.toNat = 0)

/-- A duration limited to between a quarter and four times the expected one. -/
def clampTimespan (expected actual : Int) : Int :=
  min (max actual (expected / 4)) (expected * 4)

/-- The compact bits after a period that took some time, from those in force during it. -/
def retarget (params : Params) (bits actual : Int) : Except Failure Int := do
  let expected := params.targetTimespan
  let target ← RelayError.orFail (Compact.target params bits)
  if expected = 0 then .error .divisionByZero
  else
    let scaled := target * clampTimespan expected actual / expected
    .ok (Compact.encode (min scaled params.powLimit.toNat))

/-- The compact bits required of the block after a tip. Within a period they stay the same. -/
def nextBits (params : Params) (height bits timestamp epochStart : Int) : Except Failure Int := do
  if ← opensPeriod params height then retarget params bits (timestamp - epochStart)
  else .ok bits

/-- The expected number of hashes that meet a target. -/
def work (target : Int) : Except Failure Int :=
  if target = -1 then .error .divisionByZero
  else .ok (Int.fdiv (1 <<< 256 : Nat) (target + 1))

end HeaderRelay.Difficulty
