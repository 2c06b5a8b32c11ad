import RickyNet.Win.Transport

/-!
# The command line

`args::parse` over the list of arguments, the program's name first.
-/

namespace RickyNet

structure Args where
  transport : TransportKind
  phoneIp : Option String
  port : UInt16
  headless : Bool
  adapterName : String
deriving DecidableEq

/-- `Args::default()`. -/
def Args.default : Args := ⟨.usb, none, DEFAULT_PORT, false, "RickyNet"⟩

/-- `s.parse::<u16>().ok()`: decimal digits, behind an optional `+`. -/
def parseU16 (s : String) : Option UInt16 :=
  let digits := match s.toList with
    | '+' :: digits => digits
    | digits => digits
  if digits ≠ [] ∧ digits.all Char.isDigit ∧ decimal digits ≤ 65535 then
    some (UInt16.ofNat (decimal digits))
  else none

/-- `to_ascii_lowercase`. -/
def asciiLower (s : String) : String := String.ofList (s.toList.map Char.toLower)

/-- The value of `--transport`. -/
def parseTransport (v : String) : Except String TransportKind :=
  let other := asciiLower v
  if other = "usb" then .ok .usb
  else if other = "wifi" ∨ other = "wi-fi" then .ok .wifi
  else .error ("unknown transport '" ++ other ++ "' (use usb|wifi)")

/-- The loop of `parse`, and the check behind it. -/
def parseLoop (args : Args) : List String → Except String (Option Args)
  | [] =>
    if args.transport = .wifi ∧ args.phoneIp = none then
      .error "--transport wifi requires --phone-ip <IP>"
    else .ok (some args)
  | a :: it =>
    if a = "-h" ∨ a = "--help" then .ok none
    else if a = "--headless" then parseLoop { args with headless := true } it
    else if a = "--transport" then
      match it with
      | [] => .error "--transport needs a value (usb|wifi)"
      | v :: it =>
        match parseTransport v with
        | .error e => .error e
        | .ok transport => parseLoop { args with transport := transport } it
    else if a = "--phone-ip" then
      match it with
      | [] => .error "--phone-ip needs a value"
      | v :: it => parseLoop { args with phoneIp := some v } it
    else if a = "--port" then
      match it with
      | [] => .error "--port needs a value"
      | v :: it =>
        match parseU16 v with
        | none => .error ("invalid port '" ++ v ++ "'")
        | some port => parseLoop { args with port := port } it
    else if a = "--adapter-name" then
      match it with
      | [] => .error "--adapter-name needs a value"
      | v :: it => parseLoop { args with adapterName := v } it
    else .error ("unknown argument '" ++ a ++ "' (try --help)")

/-- `parse`: `none` asks for the help text. -/
def parse (argv : List String) : Except String (Option Args) := parseLoop .default argv.tail

example : parse ["rickynet", "--headless", "--port", "9000"] =
    .ok (some { Args.default with headless := true, port := 9000 }) := by decide

end RickyNet
