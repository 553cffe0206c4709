import ColdFire.CommandLine.FileSystem
import ColdFire.CommandLine.Tool

namespace ColdFire

structure Session where
  system : FileSystem
  printed : String := ""
  reported : String := ""

namespace Session

def home : Place := ["tmp", "home"]

def ofFiles (files : List (String × List UInt8)) : Session :=
  let system : FileSystem := ⟨home, []⟩
  { system := files.foldl (fun fs (path, bytes) =>
      fs.put (home ++ (fs.pathOf path).names) bytes) system }

def files (s : Session) : List (String × List UInt8) := s.system.below home

def print (s : Session) (text : String) : Session := { s with printed := s.printed ++ text }

def report (s : Session) (text : String) : Session := { s with reported := s.reported ++ text }

def write (s : Session) (place : Place) (bytes : List UInt8) : Session :=
  match Device.at? place with
  | none => { s with system := s.system.put place bytes }
  | some .null => s
  | some .output => s.print (Text.ofUtf8Lossy bytes)
  | some .report => s.report (Text.ofUtf8Lossy bytes)

def save (s : Session) (path : String) (bytes : List UInt8) : Except String Unit × Session :=
  match s.system.placeToWrite path with
  | .ok place => (.ok (), s.write place bytes)
  | .error fault => (.error fault.message, s)

end Session

abbrev InMemory := StateM Session

instance : Host InMemory where
  loadFile path := fun s => pure ((s.system.read path).mapError FileFault.message, s)
  saveFile path bytes := fun s => pure (s.save path bytes)
  print text := modify (·.print text)
  printError text := modify (·.report text)

end ColdFire
