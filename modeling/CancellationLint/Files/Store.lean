import CancellationLint.Files.PathName

/-! # A store of files

Files, directories and symbolic links, each at a place. The store is a value: writing gives another
store. Relative path names are seen from the working directory of the store. -/

namespace CancellationLint

/-- What the system reports when a file cannot be used. -/
inductive FileError where
  | notFound
  | notDirectory
  | isDirectory
  | tooManyLinks
  | nameTooLong
  | nulInName
  | notText
  deriving DecidableEq, Repr

def FileError.message : FileError → String
  | .notFound => "No such file or directory (os error 2)"
  | .notDirectory => "Not a directory (os error 20)"
  | .isDirectory => "Is a directory (os error 21)"
  | .tooManyLinks => "Too many levels of symbolic links (os error 40)"
  | .nameTooLong => "File name too long (os error 36)"
  | .nulInName => "file name contained an unexpected NUL byte"
  | .notText => "stream did not contain valid UTF-8"

/-- The names of the directories from the root on, and then the name of the thing itself. -/
abbrev Place := List String

inductive Entry where
  | file (content : ByteArray)
  | directory
  | link (target : PathName)
  deriving Inhabited

structure FileStore where
  entries : List (Place × Entry)
  /-- The working directory. -/
  here : Place
  deriving Inhabited

/-- The steps that the system takes for a path name. Nothing between two slashes, or after the last
one, is a step that stays where it is, which only a directory allows. -/
def PathName.steps (p : PathName) : List PathName.Part :=
  p.segments.map fun segment => (Part.ofSegment? segment).getD .here

namespace FileStore

/-- What is at a place; the root is always there. -/
def at? (store : FileStore) (place : Place) : Option Entry :=
  if place = [] then some .directory else store.entries.lookup place

/-- The store with another entry at a place. -/
def put (store : FileStore) (place : Place) (entry : Entry) : FileStore :=
  { store with entries := (place, entry) :: store.entries.filter fun other => other.1 ≠ place }

def erase (store : FileStore) (place : Place) : FileStore :=
  { store with entries := store.entries.filter fun other => other.1 ≠ place }

@[simp] theorem at?_put_self (store : FileStore) (place : Place) (entry : Entry) (h : place ≠ []) :
    (store.put place entry).at? place = some entry := by
  simp [at?, put, h]

theorem lookup_filter_ne {place other : Place} (h : other ≠ place) (entries : List (Place × Entry)) :
    (entries.filter fun e => !decide (e.1 = place)).lookup other = entries.lookup other := by
  induction entries with
  | nil => rfl
  | cons e rest ih =>
    obtain ⟨p, entry⟩ := e
    by_cases hp : p = place
    · have : (other == place) = false := by simpa using h
      simp [hp, List.lookup_cons, ih, this]
    · simp [hp, List.lookup_cons, ih]

@[simp] theorem at?_put_of_ne (store : FileStore) {place other : Place} (entry : Entry)
    (h : other ≠ place) : (store.put place entry).at? other = store.at? other := by
  have : (other == place) = false := by simpa using h
  simp [at?, put, List.lookup_cons, this, lookup_filter_ne h]

@[simp] theorem at?_erase_of_ne (store : FileStore) {place other : Place} (h : other ≠ place) :
    (store.erase place).at? other = store.at? other := by
  simp [at?, erase, lookup_filter_ne h]

/-! ## Path names to places -/

/-- How many bytes a name may have. -/
def nameLimit : Nat := 255

/-- How many bytes a path name may have in one call of the system. -/
def pathLimit : Nat := 4095

/-- The number of links that the system is willing to follow. -/
def linkLimit : Nat := 40

/-- Takes steps from a directory. `follow` says where a link leads, with the steps still to take, and
`absent` what becomes of the last name if there is nothing. -/
def walk (store : FileStore) (absent : Place → Except FileError Place)
    (follow : Place → PathName → List PathName.Part → Except FileError Place) :
    Place → List PathName.Part → Except FileError Place
  | base, [] => .ok base
  | base, .root :: steps | base, .here :: steps => walk store absent follow base steps
  | base, .up :: steps => walk store absent follow base.dropLast steps
  | base, .name name :: steps =>
    if name.utf8ByteSize > nameLimit then .error .nameTooLong
    else
      match store.at? (base ++ [name]) with
      | none => if steps = [] then absent (base ++ [name]) else .error .notFound
      | some .directory => walk store absent follow (base ++ [name]) steps
      | some (.file _) => if steps = [] then .ok (base ++ [name]) else .error .notDirectory
      | some (.link target) => follow base target steps

/-- Takes steps from a directory, with at most `links` links on the way. -/
def walkLinks (store : FileStore) (absent : Place → Except FileError Place) :
    Nat → Place → List PathName.Part → Except FileError Place
  | 0 => store.walk absent fun _ _ _ => .error .tooManyLinks
  | links + 1 => store.walk absent fun base target steps =>
    store.walkLinks absent links (if target.isAbsolute then [] else base) (target.steps ++ steps)

/-- Takes steps to something that exists. -/
def resolveFrom (store : FileStore) : Place → List PathName.Part → Except FileError Place :=
  store.walkLinks (fun _ => .error .notFound) linkLimit

/-- The directory from which the steps of a path name are taken. -/
def start (store : FileStore) (p : PathName) : Place := if p.isAbsolute then [] else store.here

/-- The steps of a path name that can name something. -/
def stepsOf (p : PathName) : Except FileError (List PathName.Part) :=
  if p.text.toList.contains '\x00' then .error .nulInName
  else if p.text = "" then .error .notFound
  else .ok p.steps

/-- The steps of a path name that the system takes in one call. -/
def callSteps (p : PathName) : Except FileError (List PathName.Part) :=
  (stepsOf p).bind fun steps =>
    if p.text.utf8ByteSize > pathLimit then .error .nameTooLong else .ok steps

/-- The place of an existing thing, all links followed. -/
def resolve (store : FileStore) (p : PathName) : Except FileError Place :=
  (callSteps p).bind (store.resolveFrom (store.start p))

/-- The place of an existing thing, found name by name, so that the whole may have any length. -/
def canonical (store : FileStore) (p : PathName) : Except FileError Place :=
  (stepsOf p).bind (store.resolveFrom (store.start p))

/-- The place that a path name stands for; if there is a link at that place, it is not followed, and
there may be nothing. -/
def locate (store : FileStore) (p : PathName) : Except FileError Place :=
  (callSteps p).bind fun steps =>
    match steps.getLast? with
    | some (.name name) =>
      (store.resolveFrom (store.start p) steps.dropLast).map (· ++ [name])
    | _ => store.resolveFrom (store.start p) steps

/-- The place that a file written under a path name gets, all links followed. -/
def destination (store : FileStore) (p : PathName) : Except FileError Place :=
  (callSteps p).bind (store.walkLinks .ok linkLimit (store.start p))

/-- The store with another working directory. -/
def enter (store : FileStore) (p : PathName) : Except FileError FileStore :=
  (store.resolve p).map fun here => { store with here }

/-! ## Reading and writing -/

def isFile (store : FileStore) (p : PathName) : Bool :=
  match store.resolve p with
  | .ok place =>
    match store.at? place with
    | some (.file _) => true
    | _ => false
  | .error _ => false

def read (store : FileStore) (p : PathName) : Except FileError ByteArray :=
  (store.resolve p).bind fun place =>
    match store.at? place with
    | some (.file content) => .ok content
    | some _ => .error .isDirectory
    | none => .error .notFound

/-- The content of a file that holds a text. -/
def readText (store : FileStore) (p : PathName) : Except FileError String :=
  (store.read p).bind fun content =>
    match String.fromUTF8? content with
    | some text => .ok text
    | none => .error .notText

/-- Puts a file in place of whatever the path name stands for. The file appears at once and whole; a
link is replaced and not followed. -/
def replace (store : FileStore) (p : PathName) (content : ByteArray) : Except FileError FileStore :=
  (store.locate p).map fun place => store.put place (.file content)

/-- Makes the directories of a place that are not there yet. -/
def makeDirectories (store : FileStore) (place : Place) : FileStore :=
  (List.range place.length).foldl (fun store i =>
    let directory := place.take (i + 1)
    if (store.at? directory).isSome then store else store.put directory .directory) store

/-- Writes a file, through links if there are any, in a directory that exists. -/
def write (store : FileStore) (p : PathName) (content : ByteArray) : Except FileError FileStore :=
  (store.destination p).bind fun place =>
    match store.at? place with
    | some (.file _) | none => .ok (store.put place (.file content))
    | some _ => .error .isDirectory

/-- The names in a directory, with what stands there. -/
def inside (store : FileStore) (place : Place) : List (String × Entry) :=
  store.entries.filterMap fun e =>
    if e.1.dropLast = place then e.1.getLast?.map fun name => (name, e.2) else none

theorem mem_inside_iff {store : FileStore} {place : Place} {name : String} {entry : Entry} :
    (name, entry) ∈ store.inside place ↔ (place ++ [name], entry) ∈ store.entries := by
  simp only [inside, List.mem_filterMap]
  constructor
  · rintro ⟨⟨p, e⟩, hmem, heq⟩
    split at heq
    · rename_i hplace
      obtain ⟨last, hlast, hpair⟩ := Option.map_eq_some_iff.1 heq
      obtain ⟨front, rfl⟩ := List.getLast?_eq_some_iff.1 hlast
      cases hpair
      rw [List.dropLast_concat] at hplace
      rwa [← hplace]
    · cases heq
  · intro hmem
    exact ⟨_, hmem, by simp⟩

/-- How many names the longest place has. -/
def depth (store : FileStore) : Nat :=
  store.entries.foldr (fun e n => max e.1.length n) 0

theorem length_le_depth {store : FileStore} {place : Place} {entry : Entry}
    (h : (place, entry) ∈ store.entries) : place.length ≤ store.depth := by
  unfold depth
  generalize store.entries = entries at h
  induction entries with
  | nil => cases h
  | cons e rest ih =>
    rw [List.foldr_cons]
    rcases List.mem_cons.1 h with rfl | h
    · exact Nat.le_max_left _ _
    · exact Nat.le_trans (ih h) (Nat.le_max_right _ _)

/-- The way down from a directory comes to an end. -/
theorem depth_sub_lt {store : FileStore} {place : Place} {inner : String × Entry}
    (h : inner ∈ store.inside place) :
    store.depth - (place ++ [inner.1]).length < store.depth - place.length := by
  have hle := length_le_depth (mem_inside_iff.1 h)
  simp only [List.length_append, List.length_singleton] at hle ⊢
  omega

/-- The files in a directory and the directories in it, by the way to them from there. -/
def filesBelow (store : FileStore) (place : Place) : List (Place × ByteArray) :=
  store.entries.filterMap fun
    | (p, .file content) =>
      if place.isPrefixOf p && place.length < p.length then some (p.drop place.length, content)
      else none
    | _ => none

end FileStore
end CancellationLint
