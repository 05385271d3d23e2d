import HeaderRelay.Text.Lowercase

set_option autoImplicit false

namespace HeaderRelay

/-- A network with a preset of parameters. -/
inductive Network where
  | mainnet
  | regtest
deriving DecidableEq

namespace Network

def name : Network → String
  | .mainnet => "mainnet"
  | .regtest => "regtest"

def ofName? (name : String) : Option Network :=
  if name = "mainnet" then some .mainnet
  else if name = "regtest" then some .regtest
  else none

inductive SettingError where
  | unknown (setting : String)
  /-- The setting holds the character zero, at which the text of every setting ends. -/
  | zeroCharacter
deriving DecidableEq

def SettingError.message? : SettingError → Option String
  | .unknown setting =>
    some ("Invalid RELAY_NETWORK environment variable: '" ++ setting ++
      "'. Supported values: ['mainnet', 'regtest']")
  | .zeroCharacter => none

/-- The network of a setting, in whatever case it is written; without a setting it is the main
network. -/
def ofSetting : Option String → Except SettingError Network
  | none => .ok .mainnet
  | some setting =>
    if setting.toList.contains '\x00' then .error .zeroCharacter
    else
      match ofName? (Text.lowercase setting) with
      | some network => .ok network
      | none => .error (.unknown (Text.lowercase setting))

end Network

end HeaderRelay
