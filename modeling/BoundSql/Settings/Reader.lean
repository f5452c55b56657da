import BoundSql.Settings.Key

/-!
Settings read from a document, in any dialect. Keys are read in their fixed order, and the first
fault ends the reading. A key or a group of keys that is missing or null keeps its defaults, and
what no known key names means nothing.
-/

namespace BoundSql.Settings

open Text

variable (dialect : Dialect)

def readKey (group : Text) (entries : List (Text × Document)) (s : Settings) (k : Key) :
    Except Fault Settings :=
  match Document.lookup entries (ascii k.name) with
  | .null => .ok s
  | d =>
      match k.read d with
      | .ok change => .ok (change s)
      | .error problem => .error (.invalid (group ++ ascii "." ++ ascii k.name) problem)

def readGroup (sections : List (Text × Document)) (s : Settings) (g : Group) :
    Except Fault Settings :=
  match Document.lookup sections (ascii g.name) with
  | .null => .ok s
  | .map entries => g.keys.foldlM (readKey (ascii g.name) entries) s
  | _ => .error (.invalid (ascii g.name) .notMap)

def ofDocument (origin : Origin) : Document → Except Fault Settings
  | .null => .ok {}
  | .map sections => (groups dialect).foldlM (readGroup sections) {}
  | _ => .error (.rootNotMap origin)

def ofText (origin : Origin) (t : Text) : Except Fault Settings :=
  match dialect.document t with
  | .ok d => ofDocument dialect origin d
  | .error complaint => .error (.malformed origin complaint)

/-- `content` is what the file holds, if there is one. -/
def ofFile (path : Text) (content : Option Text) : Except Fault Settings :=
  match content with
  | some t => ofText dialect (.file path) t
  | none => .error (.fileMissing path)

end BoundSql.Settings
