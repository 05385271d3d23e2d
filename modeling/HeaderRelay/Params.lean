import HeaderRelay.Document
import HeaderRelay.Network

set_option autoImplicit false

namespace HeaderRelay

open Fields (required)

/-- The parameters of a network. -/
structure Params where
  name : String
  powLimit : BitVec 256
  difficultyAdjustmentInterval : BitVec 32
  targetBlockSpacing : BitVec 32
  medianTimeSpan : BitVec 32
  /-- Seconds by which a header may run ahead of the validity interval. -/
  maxFutureBlockTime : BitVec 32
  minBlockVersion : BitVec 32
  /-- The median of no timestamps. -/
  medianTimeEpoch : BitVec 64
  /-- Blocks that a branch must hold before its oldest is promoted. -/
  maturationDepth : BitVec 32
  /-- Seconds that the oldest block must have been visible before it is promoted. -/
  challengeAging : BitVec 64
deriving DecidableEq

namespace Params

/-- Seconds that the blocks of one difficulty should take together. -/
def targetTimespan (params : Params) : Int :=
  params.difficultyAdjustmentInterval.toNat * params.targetBlockSpacing.toNat

def span (params : Params) : Nat := params.medianTimeSpan.toNat

def mainnet : Params where
  name := "mainnet"
  powLimit := 0x00000000FFFFFFFFFFFFFFFFFFFFFFFFFFFFFFFFFFFFFFFFFFFFFFFFFFFFFFFF
  difficultyAdjustmentInterval := 2016
  targetBlockSpacing := 600
  medianTimeSpan := 11
  maxFutureBlockTime := 7200
  minBlockVersion := 4
  medianTimeEpoch := 1231006505
  maturationDepth := 101
  challengeAging := 12000

/-- The network for local tests: as the main network, with a target that nearly every second hash
meets. -/
def regtest : Params :=
  { mainnet with name := "regtest", powLimit := 0x7FFFFF#256 <<< 232 }

def preset : Network → Params
  | .mainnet => mainnet
  | .regtest => regtest

def members (params : Params) : Json.Members :=
  [("name", .string params.name), ("powLimit", .integer params.powLimit.toNat),
    ("difficultyAdjustmentInterval", .integer params.difficultyAdjustmentInterval.toNat),
    ("targetBlockSpacing", .integer params.targetBlockSpacing.toNat),
    ("medianTimeSpan", .integer params.medianTimeSpan.toNat),
    ("maxFutureBlockTime", .integer params.maxFutureBlockTime.toNat),
    ("minBlockVersion", .integer params.minBlockVersion.toNat),
    ("medianTimeEpoch", .integer params.medianTimeEpoch.toNat),
    ("maturationDepth", .integer params.maturationDepth.toNat),
    ("challengeAging", .integer params.challengeAging.toNat)]

def toJson (params : Params) : Json := .object params.members

def fields : Fields Params :=
  mk <$> required (.plain "name") Reader.text
    <*> required ⟨"powLimit", "pow_limit"⟩ (Reader.word 256)
    <*> required ⟨"difficultyAdjustmentInterval", "difficulty_adjustment_interval"⟩
      (Reader.word 32)
    <*> required ⟨"targetBlockSpacing", "target_block_spacing"⟩ (Reader.word 32)
    <*> required ⟨"medianTimeSpan", "median_time_span"⟩ (Reader.word 32)
    <*> required ⟨"maxFutureBlockTime", "max_future_block_time"⟩ (Reader.word 32)
    <*> required ⟨"minBlockVersion", "min_block_version"⟩ (Reader.word 32)
    <*> required ⟨"medianTimeEpoch", "median_time_epoch"⟩ (Reader.word 64)
    <*> required ⟨"maturationDepth", "maturation_depth"⟩ (Reader.word 32)
    <*> required ⟨"challengeAging", "challenge_aging"⟩ (Reader.word 64)

def ofJson : Json → Checked Params := fields.readObject

instance : Document Params := ⟨toJson, ofJson⟩

/-- Parameters with some fields replaced, given by their plain names. The result is checked like a
document: its fields stand first, in their order, and then every other change, whose name is at
fault. -/
def replace (params : Params) (changes : Json.Members) : Checked Params :=
  let names := fields.labels.map Label.name
  let replaced := (names.zip (params.members.map Prod.snd)).map fun (name, value) =>
    (name, (Json.find? changes name).getD value)
  ofJson (.object (replaced ++ changes.filter fun (name, _) => !names.contains name))

end Params

end HeaderRelay
