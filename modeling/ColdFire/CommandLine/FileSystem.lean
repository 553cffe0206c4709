import ColdFire.Text.Blank

namespace ColdFire

inductive FileFault where
  | missing
  | notAFolder
  | isAFolder
  | nameTooLong
deriving DecidableEq

def FileFault.message : FileFault → String
  | missing => "No such file or directory (os error 2)"
  | notAFolder => "Not a directory (os error 20)"
  | isAFolder => "Is a directory (os error 21)"
  | nameTooLong => "File name too long (os error 36)"

/-- A file or a folder: the names on the way from the root. -/
abbrev Place := List String

/-- Files that are not kept: what is written to them is dropped, or shown by the terminal. -/
inductive Device where
  | null
  | output
  | report
deriving DecidableEq

def Device.at? : Place → Option Device
  | ["dev", "null"] => some .null
  | ["dev", "stdin"] => some .null
  | ["dev", "stdout"] => some .output
  | ["dev", "stderr"] => some .report
  | _ => none

/-- Files by their places. A folder is there if a file is in it or below. -/
structure FileSystem where
  /-- The folder where paths start that do not start at the root. -/
  home : Place
  files : List (Place × List UInt8)

namespace FileSystem

structure Path where
  start : Place
  names : List String
  ofFolder : Bool

def pathOf (fs : FileSystem) (path : String) : Path :=
  let cs := path.toList
  let pieces := (Text.pieces (· == '/') cs).map String.ofList
  ⟨if cs.head? = some '/' then [] else fs.home, pieces.filter (!·.isEmpty),
    cs.getLast? = some '/'⟩

def isFolder (fs : FileSystem) (place : Place) : Bool :=
  place.isPrefixOf fs.home || place.isPrefixOf ["dev"] ||
    fs.files.any fun (p, _) => place.isPrefixOf p && place ≠ p

def contents? (fs : FileSystem) (place : Place) : Option (List UInt8) :=
  (fs.files.lookup place).or ((Device.at? place).map fun _ => [])

def enter (fs : FileSystem) (place : Place) : Except FileFault Unit :=
  if fs.isFolder place then .ok ()
  else if (fs.contents? place).isSome then .error .notAFolder
  else .error .missing

def step (fs : FileSystem) (place : Place) (name : String) : Except FileFault Place := do
  fs.enter place
  if name = "." then return place
  else if name = ".." then return place.dropLast
  else if 255 < name.utf8ByteSize then throw .nameTooLong
  else return place ++ [name]

def checkLength (path : String) : Except FileFault Unit :=
  if 4095 < path.utf8ByteSize then .error .nameTooLong else .ok ()

def read (fs : FileSystem) (path : String) : Except FileFault (List UInt8) := do
  checkLength path
  let p := fs.pathOf path
  let place ← p.names.foldlM fs.step p.start
  if path.isEmpty then throw .missing
  else if fs.isFolder place then throw .isAFolder
  else
    match fs.contents? place with
    | none => throw .missing
    | some bytes => if p.ofFolder then throw .notAFolder else return bytes

/-- The place of a file that is to be written. Its folder has to be there. -/
def placeToWrite (fs : FileSystem) (path : String) : Except FileFault Place := do
  checkLength path
  let p := fs.pathOf path
  let parent ← p.names.dropLast.foldlM fs.step p.start
  match p.names.getLast? with
  | none => throw (if path.isEmpty then .missing else .isAFolder)
  | some name =>
    fs.enter parent
    -- A slash behind the name asks for a folder, whether or not the name is that of a file.
    if p.ofFolder then throw .isAFolder
    else
      let place ← fs.step parent name
      if fs.isFolder place then throw .isAFolder else return place

def put (fs : FileSystem) (place : Place) (bytes : List UInt8) : FileSystem :=
  { fs with files := fs.files.filter (·.1 ≠ place) ++ [(place, bytes)] }

def below (fs : FileSystem) (folder : Place) : List (String × List UInt8) :=
  fs.files.filterMap fun (place, bytes) =>
    if folder.isPrefixOf place then
      some (String.intercalate "/" (place.drop folder.length), bytes)
    else none

end FileSystem

end ColdFire
