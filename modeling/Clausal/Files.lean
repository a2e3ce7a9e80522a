/-! # Files and paths

`FileAccess` is what the commands ask of the files around them.  They are written once against it,
for the files of a disk as well as for a `FileTree`, where nothing happens outside the program.

A path is text whose components stand between slashes.  `components` keeps empty components, so
that a slash at the end can be told from none; `fileName` and `hasExtension` look at the text
alone and never at a file.

A `FileTree` is a list of entries, each in the place that its components lead to.  The rules are
those of a disk: `.` stays and `..` leads up, a component that is followed by another or by a slash
has to be a directory, and at most forty links are followed on the way. -/

namespace Clausal

/-! ### Access to files -/

/-- Why a file cannot be read or written. -/
inductive FileError
  | notFound
  | notADirectory
  | isADirectory
  | nameTooLong
  | tooManyLinks
  /-- There is a zero character in the path. -/
  | zeroInName
  | other (reason : String) (code : Nat)
deriving DecidableEq, Repr

namespace FileError

def reason : FileError → String
  | notFound => "No such file or directory"
  | notADirectory => "Not a directory"
  | isADirectory => "Is a directory"
  | nameTooLong => "File name too long"
  | tooManyLinks => "Too many levels of symbolic links"
  | zeroInName => "file name contained an unexpected NUL byte"
  | other reason _ => reason

/-- The number of an error that the system reports. -/
def code? : FileError → Option Nat
  | notFound => some 2
  | notADirectory => some 20
  | isADirectory => some 21
  | nameTooLong => some 36
  | tooManyLinks => some 40
  | zeroInName => none
  | other _ code => some code

/-- The error of a reason that is known by its code. -/
def ofCode (code : Nat) (reason : String) : FileError :=
  let known := [notFound, notADirectory, isADirectory, nameTooLong, tooManyLinks]
  (known.find? fun e => e.code? == some code).getD (other reason code)

def message (e : FileError) : String :=
  e.reason ++ (e.code?.map fun n => " (os error " ++ toString n ++ ")").getD ""

end FileError

/-- Operations on the files that a program can reach.  Links are followed unless it says so. -/
class FileAccess (m : Type → Type) where
  read : String → m (Except FileError (List UInt8))
  /-- Put bytes in the place of what the file holds, if it is there. -/
  write : String → List UInt8 → m (Except FileError Unit)
  /-- Put bytes behind what the file holds. -/
  append : String → List UInt8 → m (Except FileError Unit)
  /-- Whether there is anything under the path. -/
  isPresent : String → m Bool
  isDirectory : String → m Bool
  /-- The regular files below a directory, as the components that lead to them; links below it
  are not followed. -/
  regularFiles : String → m (List (List String))

/-! ### Paths -/

namespace Path

/-- The components of a path, the empty ones between neighbouring slashes included. -/
def components (path : String) : List String :=
  let step (c : Char) (parts : List (List Char)) : List (List Char) :=
    match parts with
    | part :: rest => if c = '/' then [] :: part :: rest else (c :: part) :: rest
    | [] => [[c]]
  (path.toList.foldr step [[]]).map String.ofList

def isAbsolute (path : String) : Bool := path.toList.head? == some '/'

def endsInSlash (path : String) : Bool := path.toList.getLast? == some '/'

/-- A path followed by further components. -/
def join (path : String) (names : List String) : String :=
  names.foldl (fun p name => if endsInSlash p then p ++ name else p ++ "/" ++ name) path

/-- The last component that names something, and the whole path if there is none or the path leads
up at its end. -/
def fileName (path : String) : String :=
  match ((components path).filter fun name => name != "" && name != ".").getLast? with
  | none => path
  | some name => if name = ".." then path else name

/-- Whether a file name has the given text behind its last dot, and something before that dot. -/
def hasExtension (ext name : String) : Bool :=
  let cs := name.toList.reverse
  let before := cs.dropWhile (· != '.')
  cs.takeWhile (· != '.') == ext.toList.reverse && 1 < before.length

end Path

/-! ### A tree of files -/

/-- What stands under a name. -/
inductive Item
  | file (bytes : List UInt8)
  | directory
  | link (target : String)
deriving DecidableEq, Repr

/-- Entries with their places, and the place from which relative paths lead on. -/
structure FileTree where
  entries : List (List String × Item)
  workingDirectory : List String

namespace FileTree

/-- What stands in a place; the root is a directory. -/
def item? (t : FileTree) (place : List String) : Option Item :=
  if place.isEmpty then some .directory else (t.entries.find? fun e => e.1 == place).map Prod.snd

/-- Put an item in a place, instead of what was there. -/
def put (t : FileTree) (place : List String) (item : Item) : FileTree :=
  { t with entries := (place, item) :: t.entries.filter fun e => e.1 != place }

/-- Put an item in a place, with the directories that lead there. -/
def plant (t : FileTree) (place : List String) (item : Item) : FileTree :=
  let above := (List.range place.length).map fun n => place.take n
  let withAbove := above.foldl (fun t p => if (t.item? p).isNone then t.put p .directory else t) t
  withAbove.put place item

/-! ### Following paths -/

/-- Where a path leads. -/
structure Target where
  place : List String
  /-- What stands there, if anything does. -/
  item? : Option Item

/-- The most bytes in a component. -/
def maxComponent : Nat := 255

/-- The most bytes in a path. -/
def maxPath : Nat := 4095

/-- The most links that are followed on the way. -/
def maxLinks : Nat := 40

/-- Go on from a directory along components, with so many links left to follow.  To create a file
whose name has a slash behind it fails without a look at what is there. -/
def follow (t : FileTree) (creating : Bool) (links : Nat) (here : List String) :
    List String → Except FileError Target
  | [] => .ok ⟨here, some .directory⟩
  | name :: rest =>
      if name = "" ∨ name = "." then t.follow creating links here rest
      else if name = ".." then t.follow creating links here.dropLast rest
      else if creating ∧ rest ≠ [] ∧ rest.all (·.isEmpty) then .error .isADirectory
      else if maxComponent < name.utf8ByteSize then .error .nameTooLong
      else
        match t.item? (here ++ [name]) with
        | none => if rest.isEmpty then .ok ⟨here ++ [name], none⟩ else .error .notFound
        | some .directory => t.follow creating links (here ++ [name]) rest
        | some (.file bytes) =>
            if rest.isEmpty then .ok ⟨here ++ [name], some (.file bytes)⟩ else .error .notADirectory
        | some (.link target) =>
            match links with
            | 0 => .error .tooManyLinks
            | links + 1 =>
                let start := if Path.isAbsolute target then [] else here
                t.follow creating links start (Path.components target ++ rest)
termination_by names => (links, names.length)

/-- Where a path leads from the working directory. -/
def find (t : FileTree) (creating : Bool) (path : String) : Except FileError Target :=
  if path.toList.contains '\x00' then .error .zeroInName
  else if path.isEmpty then .error .notFound
  else if maxPath < path.utf8ByteSize then .error .nameTooLong
  else
    let start := if Path.isAbsolute path then [] else t.workingDirectory
    t.follow creating maxLinks start (Path.components path)

/-- Where a path leads to something. -/
def item (t : FileTree) (path : String) : Except FileError (List String × Item) := do
  let x ← t.find false path
  match x.item? with
  | some i => pure (x.place, i)
  | none => throw .notFound

/-! ### Operations -/

def read (t : FileTree) (path : String) : Except FileError (List UInt8) := do
  match (← t.item path).2 with
  | .file bytes => pure bytes
  | .directory | .link _ => throw .isADirectory

/-- Change the bytes of a file, which is created if it is not there. -/
def change (t : FileTree) (path : String) (f : List UInt8 → List UInt8) :
    Except FileError FileTree := do
  let x ← t.find true path
  match x.item? with
  | none => pure (t.put x.place (.file (f [])))
  | some (.file bytes) => pure (t.put x.place (.file (f bytes)))
  | some .directory | some (.link _) => throw .isADirectory

def isPresent (t : FileTree) (path : String) : Bool := (t.item path).toBool

def isDirectory (t : FileTree) (path : String) : Bool :=
  match t.item path with
  | .ok (_, .directory) => true
  | _ => false

/-- The regular files below a directory, as the components that lead to them. -/
def regularFiles (t : FileTree) (path : String) : List (List String) :=
  match t.item path with
  | .ok (place, .directory) =>
      t.entries.filterMap fun e =>
        match e.2 with
        | .file _ => if place.isPrefixOf e.1 then some (e.1.drop place.length) else none
        | .directory | .link _ => none
  | _ => []

/-- An operation that changes the tree, unless it fails. -/
def attempt (f : FileTree → Except FileError FileTree) :
    StateM FileTree (Except FileError Unit) := do
  match f (← get) with
  | .ok t =>
      set t
      return .ok ()
  | .error e => return .error e

instance : FileAccess (StateM FileTree) where
  read path := return (← get).read path
  write path bytes := attempt fun t => t.change path fun _ => bytes
  append path bytes := attempt fun t => t.change path fun old => old ++ bytes
  isPresent path := return (← get).isPresent path
  isDirectory path := return (← get).isDirectory path
  regularFiles path := return (← get).regularFiles path

end FileTree

end Clausal
