import Gatekeeper.Machine.IoError
import Gatekeeper.Path
import Gatekeeper.Text.Utf8

set_option autoImplicit false

/-!
# The file system

Files, directories and symbolic links by location. `Disk.find` resolves a path; everything else is
said in terms of what it finds. A resolution follows at most forty links.
-/

namespace Gatekeeper.Machine

/-- The names that lead from the root to a place, none of them `.` or `..`. -/
abbrev Location := List String

/-- The contents and permissions of a file. -/
structure File where
  bytes : List UInt8
  executable : Bool := false
  readable : Bool := true
  deriving DecidableEq, Repr

/-- What is at a location. -/
inductive Entry
  | dir (writable : Bool)
  | file (f : File)
  | link (target : String)
  deriving DecidableEq, Repr

/-- A file system: its entries by location. The root is always there. -/
structure Disk where
  entries : List (Location × Entry) := []
  deriving Repr

/-- Where a path leads: to an entry, or to a free name in a directory. -/
inductive Place
  | entry (loc : Location) (e : Entry)
  | vacant (loc : Location)
  deriving Repr

namespace Disk

/-- The entry at a location. -/
def get? (d : Disk) (loc : Location) : Option Entry :=
  if loc.isEmpty then some ((d.entries.lookup loc).getD (.dir true)) else d.entries.lookup loc

/-- The disk with an entry at a location, in place of what was there. -/
def put (d : Disk) (loc : Location) (e : Entry) : Disk :=
  ⟨(loc, e) :: d.entries.filter (·.1 != loc)⟩

/-- The greatest length of a name in bytes. -/
def maxName : Nat := 255

/-- The least length in bytes that is too much for a path. -/
def maxPath : Nat := 4096

/-- The number of links that are followed on the way to a place. -/
def maxLinks : Nat := 40

/-- The steps that a path asks for. A trailing slash asks for a directory, as a trailing `.`
does. -/
def steps (p : String) : List String :=
  let ps := Path.pieces p
  ps.filter (· != "") ++ (if ps.getLast? == some "" then ["."] else [])

/-- Takes the steps from the directory `loc` on. `follow` says whether a link at the end is
followed, `links` how many may still be followed. -/
def walk (d : Disk) (follow : Bool) (links : Nat) (loc : Location) :
    List String → Except IoError Place
  | [] => .ok (.entry loc ((d.get? loc).getD (.dir true)))
  | name :: rest =>
    if name == "." then walk d follow links loc rest
    else if name == ".." then walk d follow links loc.dropLast rest
    else if maxName < name.utf8ByteSize then .error .nameTooLong
    else
      let here := loc ++ [name]
      match d.get? here with
      | none => if rest.isEmpty then .ok (.vacant here) else .error .noEntry
      | some (.dir _) => walk d follow links here rest
      | some (.file f) => if rest.isEmpty then .ok (.entry here (.file f)) else .error .notDirectory
      | some (.link target) =>
        if rest.isEmpty && !follow then .ok (.entry here (.link target))
        else
          match links with
          | 0 => .error .tooManyLinks
          | links + 1 =>
            if target == "" then .error .noEntry
            else walk d follow links (if Path.isAbsolute target then [] else loc)
              (steps target ++ rest)
  termination_by names => (links, names.length)

/-- Where a path leads from a working directory. -/
def find (d : Disk) (cwd : Location) (p : String) (follow : Bool) : Except IoError Place :=
  if p.toList.contains '\x00' then .error .nulInPath
  else if p == "" then .error .noEntry
  else if maxPath ≤ p.utf8ByteSize then .error .nameTooLong
  else d.walk follow maxLinks (if Path.isAbsolute p then [] else cwd) (steps p)

/-- The entry that a path leads to, links followed. -/
def entry? (d : Disk) (cwd : Location) (p : String) : Option (Location × Entry) :=
  match d.find cwd p true with
  | .ok (.entry loc e) => some (loc, e)
  | _ => none

/-- Whether there is something at a path. -/
def occupied (d : Disk) (cwd : Location) (p : String) : Bool := (d.entry? cwd p).isSome

/-- Whether there is a directory at a path. -/
def isDir (d : Disk) (cwd : Location) (p : String) : Bool :=
  match d.entry? cwd p with
  | some (_, .dir _) => true
  | _ => false

/-- Whether there is a regular file at a path that may be executed. -/
def isProgram (d : Disk) (cwd : Location) (p : String) : Bool :=
  match d.entry? cwd p with
  | some (_, .file f) => f.executable
  | _ => false

/-- The contents of a file. -/
def read (d : Disk) (cwd : Location) (p : String) : Except IoError (List UInt8) :=
  (d.find cwd p true).bind fun
    | .entry _ (.file f) => if f.readable then .ok f.bytes else .error .denied
    | .entry _ (.dir _) => .error .isDirectory
    | .entry _ (.link _) => .error .tooManyLinks
    | .vacant _ => .error .noEntry

/-- The contents of a text file. -/
def readText (d : Disk) (cwd : Location) (p : String) : Except IoError String :=
  (d.read cwd p).bind fun bytes =>
    match Text.Utf8.decode bytes with
    | .ok s => .ok (String.ofList s)
    | .error _ => .error .notText

/-- Whether a directory may be changed. -/
def writable (d : Disk) (loc : Location) : Bool :=
  match d.get? loc with
  | some (.dir w) => w
  | _ => false

/-- Makes a directory. -/
def makeDir (d : Disk) (cwd : Location) (p : String) : Except IoError Disk :=
  (d.find cwd p false).bind fun
    | .entry _ _ => .error .alreadyExists
    | .vacant loc =>
      if d.writable loc.dropLast then .ok (d.put loc (.dir true)) else .error .denied

/-- Makes the first of the given directories, each the parent of the one before it, and those of its
ancestors that are missing. Where one cannot be made, those that were made before stay. -/
def growTree (d : Disk) (cwd : Location) : List String → Disk × Option IoError
  | [] => (d, none)
  | p :: parents =>
    match d.makeDir cwd p with
    | .ok d => (d, none)
    | .error .noEntry =>
      match growTree d cwd parents with
      | (d, some e) => (d, some e)
      | (d, none) =>
        match d.makeDir cwd p with
        | .ok d => (d, none)
        | .error e => (d, if d.isDir cwd p then none else some e)
    | .error e => (d, if d.isDir cwd p then none else some e)

/-- The disk with these directories, if all of them can be made. -/
def makeTree (d : Disk) (cwd : Location) (ps : List String) : Except IoError Disk :=
  match d.growTree cwd ps with
  | (d, none) => .ok d
  | (_, some e) => .error e

/-- Makes a directory and those of its ancestors that are missing. -/
def makeDirs (d : Disk) (cwd : Location) (p : String) : Except IoError Disk :=
  d.makeTree cwd (Path.ancestors p)

/-- Puts a new file at a path in one step. What was there, be it a link, is replaced; a directory is
not. -/
def install (d : Disk) (cwd : Location) (p : String) (bytes : List UInt8) :
    Except IoError Disk :=
  if p.toList.getLast? == some '/' then .error .notDirectory
  else
    (d.find cwd p false).bind fun
      | .entry _ (.dir _) => .error .isDirectory
      | .entry loc _ =>
        if d.writable loc.dropLast then .ok (d.put loc (.file { bytes })) else .error .denied
      | .vacant loc =>
        if d.writable loc.dropLast then .ok (d.put loc (.file { bytes })) else .error .denied

/-- Makes sure that there is a file at a path to which lines can be appended. -/
def touch (d : Disk) (cwd : Location) (p : String) : Except IoError Disk :=
  (d.find cwd p true).bind fun
    | .entry _ (.file _) => .ok d
    | .entry _ _ => .error .isDirectory
    | .vacant loc =>
      if d.writable loc.dropLast then .ok (d.put loc (.file { bytes := [] })) else .error .denied

end Disk

end Gatekeeper.Machine
