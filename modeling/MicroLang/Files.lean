import MicroLang.Text

/-!
# Files

The command reads files by name and may create one.  What it needs of a file system is a `Storage`: the
content behind a name, and whether a name can be created.  `Files` is such a storage in memory, a
working directory with the files and directories below it.

A name is resolved part by part.  Every part needs a directory in front of it, so a missing or
ordinary file in the middle of a name is noticed there, even if a later part leads back out of it.
What lies outside the working directory is not known: nothing can be found there.
-/

namespace MicroLang

/-- Why a file cannot be used. -/
inductive FileProblem where
  | notFound
  | notADirectory
  | isADirectory
  | nameTooLong
  | invalidName
  /-- Any other reason, in the words of the system. -/
  | other (reason : Text)
deriving DecidableEq, Repr

def FileProblem.message : FileProblem → Text
  | .notFound => text "no such file or directory"
  | .notADirectory => text "not a directory"
  | .isADirectory => text "is a directory"
  | .nameTooLong => text "file name too long"
  | .invalidName => text "invalid argument"
  | .other reason => reason

/-- What was being done to a file when it failed. -/
inductive FileAction where
  | opening
  | reading
deriving DecidableEq, Repr

def FileAction.verb : FileAction → Text
  | .opening => text "open"
  | .reading => text "read"

/-- A failure to use the file of the given name. -/
structure FileError where
  action : FileAction
  name : Text
  problem : FileProblem
deriving DecidableEq, Repr

def FileError.message (e : FileError) : Text :=
  e.action.verb ++ text " " ++ e.name ++ text ": " ++ e.problem.message

/-- The contents of files by name, and which names can be created. -/
structure Storage where
  read : Text → Except FileError Text
  create : Text → Except FileError Unit

/-- The parts of a name from the working directory down. -/
abbrev Path : Type := List Text

/-- Files and directories below a working directory.  Directories on the way to a file or to another
directory need not be listed. -/
structure Files where
  files : List (Path × Text) := []
  directories : List Path := []
deriving DecidableEq, Repr

/-- A place in the file system. -/
inductive Place where
  | inside (path : Path)
  | outside
deriving DecidableEq, Repr

namespace Files

/-- The content of the file at a path. -/
def content? (fs : Files) (path : Path) : Option Text :=
  (fs.files.find? fun f => f.1 = path).map Prod.snd

def isDirectory (fs : Files) (path : Path) : Bool :=
  path.isEmpty || fs.directories.any path.isPrefixOf
    || fs.files.any fun f => path.isPrefixOf f.1 && f.1 ≠ path

def isDirectoryAt (fs : Files) : Place → Bool
  | .inside path => fs.isDirectory path
  | .outside => true

/-- The part of a name that stands for the directory itself; an empty part does so too. -/
def isHere (part : Text) : Bool := part.isEmpty || part = text "."

def isUp (part : Text) : Bool := part = text ".."

/-- The longest part that a name can have. -/
def partLimit : Nat := 255

/-- The longest name, without its end mark. -/
def nameLimit : Nat := 4095

/-- What a part that does not exist is reported as. -/
def absent (part : Text) : FileProblem := if partLimit < part.length then .nameTooLong else .notFound

/-- The place that a part of a name leads to. -/
def step (fs : Files) (place : Place) (part : Text) : Except FileProblem Place :=
  if !fs.isDirectoryAt place then .error .notADirectory
  else if isHere part then .ok place
  else match place with
    | .outside => if isUp part then .ok .outside else .error (absent part)
    | .inside path =>
      if isUp part then .ok (if path.isEmpty then .outside else .inside path.dropLast)
      else
        let next := path ++ [part]
        if (fs.content? next).isSome || fs.isDirectory next then .ok (.inside next)
        else .error (absent part)

def walk (fs : Files) : Place → List Text → Except FileProblem Place
  | place, [] => .ok place
  | place, part :: parts =>
    match fs.step place part with
    | .error e => .error e
    | .ok place => fs.walk place parts

/-- Where the resolution of a name starts, and the parts to follow. -/
def start (name : Text) : Except FileProblem (Place × List Text) :=
  if name.contains 0 then .error .invalidName
  else if name.isEmpty then .error .notFound
  else if nameLimit < name.length then .error .nameTooLong
  else match name with
    | 47 :: rest => .ok (.outside, Text.split 47 rest)
    | name => .ok (.inside [], Text.split 47 name)

/-- The place with the given name. -/
def resolve (fs : Files) (name : Text) : Except FileProblem Place :=
  match start name with
  | .error e => .error e
  | .ok (place, parts) => fs.walk place parts

/-- The content of the file with the given name. -/
def read (fs : Files) (name : Text) : Except FileError Text :=
  match fs.resolve name with
  | .error problem => .error ⟨.opening, name, problem⟩
  | .ok .outside => .error ⟨.reading, name, .isADirectory⟩
  | .ok (.inside path) =>
    match fs.content? path with
    | some content => .ok content
    | none => .error ⟨.reading, name, .isADirectory⟩

/-- The place that a file of the given name would have.  The directory in front of the last part has
to exist; a slash behind the last part asks for a directory, and a file is never created as one. -/
def placeFor (fs : Files) (name : Text) : Except FileProblem Place :=
  match start name with
  | .error e => .error e
  | .ok (place, parts) =>
    let kept := (parts.reverse.dropWhile List.isEmpty).reverse
    match kept.getLast? with
    | none => .error .isADirectory
    | some last =>
      match fs.walk place kept.dropLast with
      | .error e => .error e
      | .ok parent =>
        if !fs.isDirectoryAt parent then .error .notADirectory
        else if kept.length < parts.length && !isHere last && !isUp last then .error .isADirectory
        else match fs.step parent last with
          | .ok found => if fs.isDirectoryAt found then .error .isADirectory else .ok found
          | .error .notFound =>
            match parent with
            | .inside path => .ok (.inside (path ++ [last]))
            | .outside => .ok .outside
          | .error e => .error e

/-- Whether a file with the given name can be created, or emptied if it exists. -/
def create (fs : Files) (name : Text) : Except FileError Unit :=
  match fs.placeFor name with
  | .error problem => .error ⟨.opening, name, problem⟩
  | .ok _ => .ok ()

/-- Sets the content of the file with the given name, if it can be created inside. -/
def write (fs : Files) (name content : Text) : Files :=
  match fs.placeFor name with
  | .ok (.inside path) =>
    { fs with files := fs.files.filter (fun f => f.1 ≠ path) ++ [(path, content)] }
  | _ => fs

/-- Adds a file below the working directory by its name. -/
def add (fs : Files) (name content : Text) : Files :=
  { fs with files := fs.files ++ [((Text.split 47 name).filter fun p => !isHere p, content)] }

/-- Adds a directory below the working directory by its name. -/
def addDirectory (fs : Files) (name : Text) : Files :=
  { fs with directories := fs.directories ++ [(Text.split 47 name).filter fun p => !isHere p] }

/-- The files that are new or have another content than before. -/
def changes (before after : Files) : List (Text × Text) :=
  (after.files.filter fun f => before.content? f.1 ≠ some f.2).map fun f =>
    ([47].intercalate f.1, f.2)

/-- The storage of a working directory. -/
def storage (fs : Files) : Storage where
  read := fs.read
  create := fs.create

end Files

end MicroLang
