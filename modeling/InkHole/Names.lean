import InkHole.FileSystem

/-! The errors of the core, and the functions that turn text into names and paths. -/

namespace InkHole

inductive CoreError where
  | invalidRequest (message : String)
  | invalidTransfer (message : String)
  | protocol (message : String)
  | digestMismatch (path : Path)
  | cancelled
  | io (error : IoError)
  | json
  | quinnRead
  | crypto (message : String)
  deriving DecidableEq, Repr

/-- The characters no portable file name may hold, beside the control characters. -/
def reservedCharacter (c : Char) : Bool :=
  decide (c.val < 0x20) || "<>:\"|?*".toList.contains c

def trimEndMatches (drop : Char → Bool) (cs : List Char) : List Char :=
  (cs.reverse.dropWhile drop).reverse

def dotOrSpace (c : Char) : Bool := c == '.' || c == ' '

def separator (c : Char) : Bool := c == '/' || c == '\\'

def windowsReservedName (component : List Char) : Bool :=
  let uppercase := (component.takeWhile (· != '.')).map Char.toUpper
  let numbered (suffix : List Char) : Bool :=
    match suffix with
    | [c] => "123456789".toList.contains c
    | _ => false
  ["CON", "PRN", "AUX", "NUL"].any (fun name => name.toList == uppercase) ||
    (if "COM".toList.isPrefixOf uppercase || "LPT".toList.isPrefixOf uppercase then
      numbered (uppercase.drop 3)
    else false)

def safeCharacters (raw : List Char) : List Char :=
  let basename := (raw.reverse.takeWhile fun c => !separator c).reverse
  let safe := basename.map fun c => if reservedCharacter c then '_' else c
  let trimmed := trimEndMatches dotOrSpace safe
  if trimmed = [] ∨ trimmed = ['.'] ∨ trimmed = ['.', '.'] then "unknown".toList
  else if windowsReservedName trimmed then '_' :: trimmed
  else trimmed

def safeFilename (raw : String) : String := String.ofList (safeCharacters raw.toList)

/-- Stem and extension, the extension with its dot. A leading dot starts no extension. -/
def splitExtension (filename : String) : String × String :=
  let cs := filename.toList
  let extension := cs.reverse.takeWhile (· != '.')
  let stem := (cs.reverse.drop (extension.length + 1)).reverse
  if stem = [] then (filename, "")
  else (String.ofList stem, String.ofList ('.' :: extension.reverse))

def withExtension (name extension : String) : String := (splitExtension name).1 ++ "." ++ extension

def Path.withExtension : Path → String → Path
  | [], _ => []
  | name :: p, extension => InkHole.withExtension name extension :: p

/-- ASCII characters take one byte each. -/
theorem utf8ByteSize_ascii {cs : List Char} (h : ∀ c ∈ cs, c.val ≤ 127) :
    (String.ofList cs).utf8ByteSize = cs.length := by
  induction cs with
  | nil => rfl
  | cons c cs ih =>
    obtain ⟨hc, hcs⟩ := List.forall_mem_cons.mp h
    have hone : c.utf8Size = 1 := by simp [Char.utf8Size, hc]
    rw [String.ofList_cons, String.utf8ByteSize_append, ih hcs, String.utf8ByteSize_singleton, hone,
      List.length_cons]
    omega

def components (path : String) : List String := (path.toList.splitOn '/').map String.ofList

/-- The final component of a path, as the standard library reads it: empty components
and `.` do not count, and `..` is no file name. -/
def pathFileName (path : String) : Option String :=
  match ((components path).filter fun c => c ≠ "" ∧ c ≠ ".").getLast? with
  | some name => if name = ".." then none else some name
  | none => none

def validateDestinationName (name : String) : Except CoreError Unit :=
  if safeFilename name ≠ name ∨ pathFileName name ≠ some name then
    .error (.invalidTransfer "invalid destination in transfer state")
  else .ok ()

def maxFolderPathBytes : Nat := 4096

def invalidComponent (component : List Char) : Bool :=
  component.isEmpty || component == ['.'] || component == ['.', '.'] ||
    component.getLast?.any dotOrSpace || component.any reservedCharacter ||
    windowsReservedName component

def validateFolderRelativePath (path : String) : Except CoreError Unit :=
  let cs := path.toList
  if cs = [] ∨ maxFolderPathBytes < path.utf8ByteSize ∨ cs.head? = some '/' ∨
      cs.getLast? = some '/' ∨ '\\' ∈ cs ∨ '\x00' ∈ cs then
    .error (.invalidTransfer "invalid folder entry path")
  else if (cs.splitOn '/').any invalidComponent then
    .error (.invalidTransfer "invalid folder entry path")
  else .ok ()

example : safeFilename "../../bad:name?.txt " = "bad_name_.txt" := by decide +kernel
example : safeFilename ".." = "unknown" ∧ safeFilename "nul.txt" = "_nul.txt" := by decide +kernel
example : splitExtension "archive.tar.gz" = ("archive.tar", ".gz") := by decide +kernel
example : splitExtension ".hidden" = (".hidden", "") := by decide +kernel

end InkHole
