import Craftling.Effects.Program

namespace Craftling.Guest
open Effects

inductive Command where
  | saveOff
  | saveAllFlush
  | saveOn
  deriving DecidableEq, Repr

abbrev Fd := Nat

/-- What one `RCONExec` came to. Commands run in the order they were given and
the exchange stops at its first failure, so `ran` counts a prefix of them. -/
structure RconResult where
  ran : Nat
  err : Option String
  deriving DecidableEq, Repr

/-- The calls a connection handler makes outside its own memory. Health probing
and whitelist application are single calls here: neither touches the freeze nor
the workload's saving. The thaw ioctl fails only on a filesystem that is not frozen,
so its answer carries nothing. -/
inductive Call where
  | rconExec (cmds : List Command)
  | openScratch
  | fsFreeze (fd : Fd)
  | fsThaw (fd : Fd)
  | close (fd : Fd)
  | probeHealth
  | applyWhitelist (arg : String)
  | reply (line : String)
  deriving DecidableEq, Repr

abbrev Answer : Call → Type
  | .rconExec _ => RconResult
  | .openScratch => Except String Fd
  | .fsFreeze _ => Option String
  | .fsThaw _ => Unit
  | .close _ => Unit
  | .probeHealth => Except String String
  | .applyWhitelist _ => Option String
  | .reply _ => Unit

abbrev Handler := Prog Call Answer

def rconExec (cmds : List Command) : Handler RconResult := .call (.rconExec cmds) .done
def openScratch : Handler (Except String Fd) := .call .openScratch .done
def fsFreeze (fd : Fd) : Handler (Option String) := .call (.fsFreeze fd) .done
def fsThaw (fd : Fd) : Handler Unit := .call (.fsThaw fd) .done
def close (fd : Fd) : Handler Unit := .call (.close fd) .done
def probeHealth : Handler (Except String String) := .call .probeHealth .done
def applyWhitelist (arg : String) : Handler (Option String) := .call (.applyWhitelist arg) .done
def reply (line : String) : Handler Unit := .call (.reply line) .done

structure QuiesceConfig where
  rconAddress : String
  deriving DecidableEq, Repr

def rconConfigured (q : Option QuiesceConfig) : Bool :=
  match q with
  | none => false
  | some c => c.rconAddress != ""

def snapPrepare : String := "PREPARE"
def snapResume : String := "RESUME"
def healthProbe : String := "HEALTH"
def whitelistApply : String := "WHITELIST"
def snapOK : String := "OK"
def snapErrPrefix : String := "ERR "

def isSpace (c : Char) : Bool :=
  let n := c.toNat
  (9 ≤ n && n ≤ 13) || n == 32 || n == 0x85 || n == 0xA0 || n == 0x1680 ||
    (0x2000 ≤ n && n ≤ 0x200A) || n == 0x2028 || n == 0x2029 || n == 0x202F ||
    n == 0x205F || n == 0x3000

def trimSpace (s : List Char) : List Char :=
  ((s.dropWhile isSpace).reverse.dropWhile isSpace).reverse

def cut (s : List Char) : List Char × List Char :=
  (s.takeWhile (· != ' '), (s.dropWhile (· != ' ')).drop 1)

inductive Verb where
  | prepare
  | resume
  | health
  | whitelist (arg : String)
  | unknown
  deriving DecidableEq, Repr

def verbOf (line : String) : Verb :=
  let (verb, arg) := cut (trimSpace line.toList)
  if verb = snapPrepare.toList then .prepare
  else if verb = snapResume.toList then .resume
  else if verb = healthProbe.toList then .health
  else if verb = whitelistApply.toList then .whitelist (String.ofList arg)
  else .unknown

def freezeScratch : Handler (Except String Fd) := do
  match ← openScratch with
  | .error e => return .error ("open freeze target: " ++ e)
  | .ok fd =>
    match ← fsFreeze fd with
    | some e =>
      close fd
      return .error ("fsfreeze: " ++ e)
    | none => return .ok fd

def prepareSnapshot (q : Option QuiesceConfig) : Handler (Except String Fd) := do
  if rconConfigured q then
    let _ ← rconExec [.saveOff, .saveAllFlush]
  freezeScratch

def resumeSnapshot (q : Option QuiesceConfig) : Handler Unit := do
  if rconConfigured q then
    let _ ← rconExec [.saveOn]

/-- The body of the scan loop: one line, with the freeze the connection holds
before it and after it. -/
def handleLine (q : Option QuiesceConfig) (freezeFd : Option Fd) (line : String) :
    Handler (Option Fd) := do
  match verbOf line with
  | .prepare =>
    match freezeFd with
    | some fd =>
      reply (snapErrPrefix ++ "already prepared")
      return some fd
    | none =>
      match ← prepareSnapshot q with
      | .error e =>
        reply (snapErrPrefix ++ e)
        return none
      | .ok fd =>
        reply snapOK
        return some fd
  | .resume =>
    if let some fd := freezeFd then
      fsThaw fd
      close fd
    resumeSnapshot q
    reply snapOK
    return none
  | .health =>
    match ← probeHealth with
    | .error e => reply (snapErrPrefix ++ "marshal health: " ++ e)
    | .ok raw => reply (snapOK ++ " " ++ raw)
    return freezeFd
  | .whitelist arg =>
    match ← applyWhitelist arg with
    | some e => reply (snapErrPrefix ++ e)
    | none => reply snapOK
    return freezeFd
  | .unknown =>
    reply (snapErrPrefix ++ "unknown command")
    return freezeFd

def finishConn (freezeFd : Option Fd) : Handler Unit := do
  if let some fd := freezeFd then
    fsThaw fd
    close fd

abbrev Oracle := (c : Call) → Answer c

abbrev Log := List (Prog.Answered Call Answer)

structure Input where
  line : String
  oracle : Oracle

def serveLines (q : Option QuiesceConfig) : Option Fd → List Input → Option Fd × Log
  | fd, [] => (fd, [])
  | fd, i :: rest =>
    let (fd', log) := (handleLine q fd i.line).answerWith i.oracle
    let (fd'', log') := serveLines q fd' rest
    (fd'', log ++ log')

/-- A connection from its first line to the return of its handler. `last`
answers the calls of the deferred work. -/
def handleSnapshotConn (q : Option QuiesceConfig) (ins : List Input) (last : Oracle) : Log :=
  let (fd, log) := serveLines q none ins
  log ++ ((finishConn fd).answerWith last).2

end Craftling.Guest
