import Craftling.Guest.Control

namespace Craftling.Agent.LiveSnapshot
open Effects Guest

/-- What the host does while it takes one live snapshot. The capture reads the
world disk block by block; everything else is one call of the source. -/
inductive Call where
  | dial
  | write (line : String)
  | readLine
  | openDisk
  | createTemp
  | copyBlock (i : Nat)
  | closeTemp
  | removeTemp
  | openTemp
  | put
  | closeConn
  deriving DecidableEq, Repr

abbrev Answer : Call → Type
  | .dial => Except String Unit
  | .write _ => Except String Unit
  | .readLine => Except String String
  | .openDisk | .createTemp | .copyBlock _ | .closeTemp => Except String Unit
  | .removeTemp => Unit
  | .openTemp => Except String Unit
  | .put => Except String Unit
  | .closeConn => Unit

abbrev Session := Prog Call Answer

def dialVsockControl : Session (Except String Unit) := .call .dial .done
def writeLine (line : String) : Session (Except String Unit) := .call (.write line) .done
def readLine : Session (Except String String) := .call .readLine .done
def openDisk : Session (Except String Unit) := .call .openDisk .done
def createTemp : Session (Except String Unit) := .call .createTemp .done
def copyBlock (i : Nat) : Session (Except String Unit) := .call (.copyBlock i) .done
def closeTemp : Session (Except String Unit) := .call .closeTemp .done
def removeTemp : Session Unit := .call .removeTemp .done
def openTemp : Session (Except String Unit) := .call .openTemp .done
def put : Session (Except String Unit) := .call .put .done
def closeConn : Session Unit := .call .closeConn .done

/-- The fields of the machine and the runtime that a live snapshot looks at. -/
structure Machine where
  id : String
  store : Bool
  worldDisk : String
  vsockUDS : String
  /-- The length of the world disk in the blocks `io.Copy` moves. -/
  blocks : Nat
  deriving DecidableEq, Repr

def snapCommand (cmd : String) : Session (Except String Unit) := do
  match ← writeLine cmd with
  | .error e => return .error ("send " ++ cmd ++ ": " ++ e)
  | .ok () =>
    match ← readLine with
    | .error e => return .error ("read " ++ cmd ++ " reply: " ++ e)
    | .ok line =>
      if line = snapOK then return .ok ()
      else return .error (cmd ++ " rejected: " ++ line)

/-- Send one command and take whatever line comes back. -/
def readLineAfter (cmd : String) : Session (Except String String) := do
  match ← writeLine cmd with
  | .error e => return .error e
  | .ok () => readLine

def copyBlocks (i : Nat) : Nat → Session (Except String Unit)
  | 0 => return .ok ()
  | n + 1 => do
    match ← copyBlock i with
    | .error e => return .error e
    | .ok () => copyBlocks (i + 1) n

def gzipDiskToFile (blocks : Nat) : Session (Except String Unit) := do
  match ← openDisk with
  | .error e => return .error ("open world disk: " ++ e)
  | .ok () =>
    match ← createTemp with
    | .error e => return .error ("create snapshot temp: " ++ e)
    | .ok () =>
      match ← copyBlocks 0 blocks with
      | .error e =>
        let _ ← closeTemp
        return .error ("compress world disk: " ++ e)
      | .ok () =>
        match ← closeTemp with
        | .error e => return .error ("flush snapshot temp: " ++ e)
        | .ok () => return .ok ()

def putGzFile : Session (Except String Unit) := do
  match ← openTemp with
  | .error e => return .error ("open snapshot temp: " ++ e)
  | .ok () =>
    match ← put with
    | .error e => return .error ("store world snapshot: " ++ e)
    | .ok () => return .ok ()

/-- What a capture comes to once the guest was told to go on. -/
def uploadCapture (capErr : Except String Unit) : Session (Except String Unit) := do
  match capErr with
  | .error e =>
    removeTemp
    return .error ("firecracker: capture frozen disk: " ++ e)
  | .ok () =>
    let putErr ← putGzFile
    removeTemp
    match putErr with
    | .error e => return .error ("firecracker: upload snapshot: " ++ e)
    | .ok () => return .ok ()

/-- The exchange after PREPARE was acknowledged: capture, thaw, upload. The
answer to RESUME is looked at by nobody. -/
def captureAndUpload (m : Machine) : Session (Except String Unit) := do
  let capErr ← gzipDiskToFile m.blocks
  let _ ← readLineAfter snapResume
  uploadCapture capErr

def snapshotRunning (m : Machine) : Session (Except String Unit) := do
  if !m.store || m.worldDisk = "" || m.vsockUDS = "" then
    return .error ("firecracker: live snapshot not available for vm " ++ m.id)
  else
    match ← dialVsockControl with
    | .error e => return .error e
    | .ok () =>
      match ← snapCommand snapPrepare with
      | .error e =>
        closeConn
        return .error ("firecracker: prepare snapshot: " ++ e)
      | .ok () =>
        let res ← captureAndUpload m
        closeConn
        return res

def probeHealth (m : Machine) : Session (Except String String) := do
  if m.vsockUDS = "" then
    return .error "firecracker: health probe needs a vsock control channel"
  else
    match ← dialVsockControl with
    | .error e => return .error e
    | .ok () =>
      let line ← readLineAfter healthProbe
      closeConn
      match line with
      | .error e => return .error ("firecracker: health probe: " ++ e)
      | .ok reply => return .ok reply

/-- The host side of a whitelist push. `payload` is the JSON array of usernames. -/
def syncWhitelist (m : Machine) (payload : String) : Session (Except String Unit) := do
  if m.vsockUDS = "" then
    return .error "firecracker: whitelist sync needs a vsock control channel"
  else
    match ← dialVsockControl with
    | .error e => return .error e
    | .ok () =>
      let line ← readLineAfter (whitelistApply ++ " " ++ payload)
      closeConn
      match line with
      | .error e => return .error ("firecracker: whitelist sync: " ++ e)
      | .ok reply =>
        if snapErrPrefix.toList.isPrefixOf reply.toList then
          return .error ("firecracker: whitelist sync rejected: " ++
            String.ofList (reply.toList.drop snapErrPrefix.length))
        else return .ok ()

end Craftling.Agent.LiveSnapshot
