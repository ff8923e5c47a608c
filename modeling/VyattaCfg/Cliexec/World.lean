import VyattaCfg.Cliexec.ValCmp

namespace VyattaCfg.Cliexec

open ByteString VyattaCfg.Client

/-- What an evaluation asks of the store and of the system, whose answers may change from one
    question to the next. -/
structure World (σ : Type) where
  cstoreGetVarRef : σ → Bytes → Bool → VarRefResult × σ
  cstoreSetVarRef : σ → Bytes → Bytes → Bool × σ
  /-- What the command prints; `none` where it cannot be run. -/
  popen : σ → Bytes → Option Bytes × σ
  systemOut : σ → Bytes → Int × σ
  outputUser : σ → Bytes → σ
  regcomp : Bytes → Option (Bytes → Bool)

/-- The variables that an evaluation reads and does not write. -/
structure Globals where
  connected : Bool
  atString : Bytes
  inDeleteAction : Bool
  inCommit : Bool
  validateValue : ValStruct

def varRefMarker : Bytes := str "$VAR("

def refLookup {σ : Type} (w : World σ) (g : Globals) (state : σ) (ref : Bytes) : Option VarRefResult × σ :=
  if g.connected then
    let (got, state) := w.cstoreGetVarRef state ref g.inDeleteAction
    (some got, state)
  else (none, state)

end VyattaCfg.Cliexec
