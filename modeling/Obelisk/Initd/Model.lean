import Obelisk.Lib.Text

/-!
# The services of initd

`initd` reads its configuration, and for every service file of the list forks a child that takes the
identity of the service and executes its command.
-/

namespace Obelisk.Initd

open KLib

abbrev Files : Type := Bytes → Option Bytes

/-! ## Strings -/

def cstrcpy (src : Bytes) (cap : ℕ) : Bytes := src.take (cap - 1)

def parseU32 (s : Bytes) : Option ℕ := if s = [] then none else decimalWrapFrom 32 s 0

def parseBool (s : Bytes) : Bool :=
  s = str "1" || s = str "yes" || s = str "true" || s = str "on"

def readSmallFile (files : Files) (path : Bytes) (cap : ℕ) : Option Bytes :=
  (files path).map fun content => cstr (content.take (cap - 1))

def splitKV (line : Bytes) : Bytes × Option Bytes :=
  match line.dropWhile (· ≠ 61) with
  | [] => (trim line, none)
  | _ :: rest => (trim (line.takeWhile (· ≠ 61)), some (trim rest))

def setting (line : Bytes) : Option (Bytes × Bytes) :=
  let line := trim line
  if line = [] ∨ line.head? = some 35 then none
  else
    match splitKV line with
    | (_, none) => none
    | (key, some value) => some (key, value)

/-! ## The configuration -/

/-- The configuration of `initd`. -/
structure Config where
  profile : Bytes
  serviceList : Bytes
  shellPath : Bytes
  shellArg0 : Bytes
  shellArg1 : Bytes
  userName : Bytes
  uid : ℕ
  gid : ℕ
  verbose : Bool
  desktopMode : Bytes

def configDefaults : Config where
  profile := cstrcpy (str "production") 64
  serviceList := cstrcpy (str "/etc/obelisk/initd/services/motd.svc,/etc/obelisk/initd/services/identity.svc") 128
  shellPath := cstrcpy (str "/bin/osh") 128
  shellArg0 := cstrcpy (str "osh") 32
  shellArg1 := cstrcpy (str "-i") 32
  userName := cstrcpy (str "obelisk") 32
  uid := 1000
  gid := 1000
  verbose := true
  desktopMode := cstrcpy (str "tty") 16

def Config.assign (cfg : Config) (kv : Bytes × Bytes) : Config :=
  let (key, value) := kv
  if key = str "profile" then { cfg with profile := cstrcpy value 64 }
  else if key = str "services" then { cfg with serviceList := cstrcpy value 128 }
  else if key = str "shell" then { cfg with shellPath := cstrcpy value 128 }
  else if key = str "shell_arg0" then { cfg with shellArg0 := cstrcpy value 32 }
  else if key = str "shell_arg1" then { cfg with shellArg1 := cstrcpy value 32 }
  else if key = str "default_user" then { cfg with userName := cstrcpy value 32 }
  else if key = str "default_uid" then { cfg with uid := (parseU32 value).getD cfg.uid }
  else if key = str "default_gid" then { cfg with gid := (parseU32 value).getD cfg.gid }
  else if key = str "verbose" then { cfg with verbose := parseBool value }
  else if key = str "desktop_mode" then { cfg with desktopMode := cstrcpy value 16 }
  else cfg

def parseConfig (cfg : Config) (content : Bytes) : Config :=
  ((lines content).filterMap setting).foldl Config.assign cfg

def loadDesktopMode (files : Files) (cfg : Config) : Config :=
  match readSmallFile files (str "/etc/obelisk-desktop.conf") 256 with
  | some buf => parseConfig cfg buf
  | none =>
    match readSmallFile files (str "/etc/obelisk-install.conf") 256 with
    | some buf => parseConfig cfg buf
    | none => cfg

def loadConfig (files : Files) : Config :=
  loadDesktopMode files <| match readSmallFile files (str "/etc/obelisk/initd.conf") 4096 with
    | some buf => parseConfig configDefaults buf
    | none => configDefaults

/-! ## The passwd file -/

def cutFields : ℕ → Bytes → List Bytes
  | _, [] => [[]]
  | 0, s => [s]
  | n + 1, c :: s =>
    if c = 58 then [] :: cutFields n s
    else
      match cutFields (n + 1) s with
      | [] => [[c]]
      | f :: fs => (c :: f) :: fs

def passwdFields (line : Bytes) : List Bytes :=
  let line := trim line
  if line = [] ∨ line.head? = some 35 then [] else cutFields 6 line

def passwdIds (name line : Bytes) : Option (ℕ × ℕ) :=
  match passwdFields line with
  | f0 :: _ :: f2 :: f3 :: _ =>
    if f0 = name then
      match parseU32 f2, parseU32 f3 with
      | some u, some g => some (u, g)
      | _, _ => none
    else none
  | _ => none

def lookupUserByName (files : Files) (name : Bytes) : Option (ℕ × ℕ) :=
  match readSmallFile files (str "/etc/passwd") 4096 with
  | none => none
  | some buf => (lines buf).findSome? (passwdIds name)

/-! ## Service files -/

/-- A service file. -/
structure Service where
  name : Bytes
  description : Bytes
  execCmd : Bytes
  userName : Bytes
  uid : ℕ
  gid : ℕ
  autostart : Bool
  oneshot : Bool
  restartOnFailure : Bool

def serviceDefaults : Service where
  name := cstrcpy (str "unnamed") 64
  description := cstrcpy (str "no description") 128
  execCmd := []
  userName := cstrcpy (str "root") 32
  uid := 0
  gid := 0
  autostart := true
  oneshot := true
  restartOnFailure := false

def Service.assign (svc : Service) (kv : Bytes × Bytes) : Service :=
  let (key, value) := kv
  if key = str "name" then { svc with name := cstrcpy value 64 }
  else if key = str "description" then { svc with description := cstrcpy value 128 }
  else if key = str "exec" then { svc with execCmd := cstrcpy value 160 }
  else if key = str "autostart" then { svc with autostart := parseBool value }
  else if key = str "oneshot" then { svc with oneshot := parseBool value }
  else if key = str "restart" then { svc with restartOnFailure := value = str "on-failure" }
  else if key = str "user" then { svc with userName := cstrcpy value 32 }
  else if key = str "uid" then { svc with uid := (parseU32 value).getD svc.uid }
  else if key = str "gid" then { svc with gid := (parseU32 value).getD svc.gid }
  else svc

def loadService (files : Files) (path : Bytes) : Option Service :=
  match readSmallFile files path 4096 with
  | none => none
  | some buf =>
    let svc := ((lines buf).filterMap setting).foldl Service.assign serviceDefaults
    if svc.execCmd = [] then none
    else if svc.userName ≠ [] ∧ svc.userName ≠ str "root" then
      match lookupUserByName files svc.userName with
      | some (uid, gid) => some { svc with uid := uid, gid := gid }
      | none => some svc
    else some svc

/-! ## Launching -/

/-- What the system calls of a launch answer. -/
structure Answers where
  fork : Bool
  setgid : Bool
  setuid : Bool

/-- A command and the ids it runs with. -/
structure Exec where
  command : Bytes
  uid : ℕ
  gid : ℕ
deriving DecidableEq

def launchCommandAs (k : Answers) (command : Bytes) (uid gid : ℕ) : Option Exec :=
  if k.fork then
    some ⟨command, if k.setuid then uid else 0, if k.setgid then gid else 0⟩
  else none

/-- A launch of the service with the number `service`. -/
structure Launch extends Exec where
  service : ℕ
  path : Bytes
deriving DecidableEq

def servicePaths (list : Bytes) : List Bytes :=
  ((list.splitOn 44).map trim).filter (· ≠ [])

def runServicesFrom (files : ℕ → Files) (k : ℕ → Answers) : ℕ → List Bytes → List Launch
  | _, [] => []
  | i, path :: paths =>
    let launched :=
      match loadService (files i) path with
      | none => none
      | some svc =>
        if svc.autostart then launchCommandAs (k i) svc.execCmd svc.uid svc.gid else none
    (launched.map fun e => ⟨e, i, path⟩).toList ++ runServicesFrom files k (i + 1) paths

def runServices (cfg : Config) (files : ℕ → Files) (k : ℕ → Answers) : List Launch :=
  runServicesFrom files k 0 (servicePaths (cstrcpy cfg.serviceList 256))

def start (conf : Files) (files : ℕ → Files) (k : ℕ → Answers) : List Launch :=
  runServices (loadConfig conf) files k

end Obelisk.Initd
