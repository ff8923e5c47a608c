import VyattaCfg.Cliexec.CliVal
import VyattaCfg.Cliexec.ExpandString

namespace VyattaCfg.Cliexec

open ByteString VyattaCfg.Client

structure VtwDef where
  defType : VtwType
  defType2 : VtwType
  defTypeHelp : Option Bytes
  multi : Bool

def typeToName : VtwType → Bytes
  | .int => str "u32"
  | .ipv4 => str "ipv4"
  | .ipv4net => str "ipv4net"
  | .ipv6 => str "ipv6"
  | .ipv6net => str "ipv6net"
  | .macaddr => str "macaddr"
  | .domain => str "domain"
  | .text => str "txt"
  | .bool => str "bool"
  | .error | .priority => str "unknown"

def VtwDef.typeBuf (defn : VtwDef) : Bytes :=
  if defn.defType2 ≠ .error then typeToName defn.defType ++ str " or " ++ typeToName defn.defType2
  else typeToName defn.defType

def cliValue (type : VtwType) (val : Bytes) : ValStruct := { ValStruct.zero with valType := type, val := some val }

section Notext

variable {σ : Type} (w : World σ) (g : Globals) (defn : VtwDef) (value : Bytes)

/-- What `err_buf` says of a value of the wrong type. -/
def wrongType (state : σ) : Except Abort (Bytes × σ) :=
  match defn.defTypeHelp with
  | some help => do
    let expansion ← expandString w { g with atString := value } help state
    .ok (expansion.exeString ++ str "\n", expansion.state)
  | none => .ok (str "\"" ++ value ++ str "\" is not a valid value of type \"" ++ defn.typeBuf ++ str "\"\n", state)

/-- The value that is stored so far is `none` on the first round. -/
def notextLoop : List ValToken → Option ValStruct → σ → Except Abort (Except Bytes ValStruct × σ)
  | [], some valp, state => .ok (.ok valp, state)
  | .value type val :: tokens, valp, state =>
    if defn.defType ≠ type ∧ (defn.defType2 ≠ .error ∧ defn.defType2 ≠ type) then do
      let (errBuf, state) ← wrongType w g defn value state
      match valp with
      | none => .ok (.error errBuf, state)
      | some valp => .ok (.ok valp, state)
    else
      let stored :=
        match valp with
        | none => cliValue type val
        | some valp => if defn.multi then addVal valp (cliValue type val) else valp
      match tokens with
      | [] => .ok (.ok stored, state)
      | .eol :: tokens => notextLoop tokens (some stored) state
      | _ :: _ => .ok (.error (str "\"" ++ value ++ str "\" is not a valid value\n"), state)
  | _, _, state => do
    let (errBuf, state) ← wrongType w g defn value state
    .ok (.error errBuf, state)

end Notext

/-- The lines of a text value, an empty one behind the last newline not counted. -/
def textLines (value : Bytes) : List Bytes :=
  if value.getLast? = some (ch '\n') then (value.splitOn (ch '\n')).dropLast else value.splitOn (ch '\n')

def char2valText (value : Bytes) : ValStruct :=
  if (textLines value).length ≤ 1 then
    { ValStruct.zero with valType := .text, val := some (value.takeWhile (· ≠ ch '\n')) }
  else { ValStruct.zero with valType := .text, vals := (textLines value).map fun line => (line, .error) }

def char2val {σ : Type} (w : World σ) (g : Globals) (lib : AddressLib) (defn : VtwDef) (value : Bytes) (state : σ) :
    Except Abort (Except Int ValStruct × σ) :=
  if defn.defType ≠ .text ∧ defn.defType ≠ .error then do
    let (checked, state) ← notextLoop w g defn value (valTokens lib value) none state
    match checked with
    | .error buf1 => .ok (.error (-1), w.outputUser state buf1)
    | .ok valp => .ok (.ok valp, state)
  else .ok (.ok (char2valText value), state)

end VyattaCfg.Cliexec
