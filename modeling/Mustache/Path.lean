import Mustache.Text.Blank

/-!
# Paths

A path is a text whose pieces are separated by slashes.  Its *components* leave out what does not
matter: repeated and trailing slashes, and every `.` but a leading one.

* `Path.components`      the components of a path
* `Path.fileName?`       the last component, if it is a name
* `Path.splitExtension`  a file name as stem and extension
* `Path.join`            a path below another one
* `Path.withExtension`   a path with the extension of its file name set
* `Path.size`            the bytes of a path
-/

namespace Mustache.Path

inductive Component where
  | root
  | current
  | parent
  | normal (name : Text)
  deriving DecidableEq, Repr

def pieces (p : Text) : List Text := p.splitOn '/'

/-- an empty piece or a single dot leads nowhere -/
def isIdle (piece : Text) : Bool := piece == [] || piece == ['.']

def component? (piece : Text) : Option Component :=
  if isIdle piece then none
  else if piece = ['.', '.'] then some .parent
  else some (.normal piece)

/-- the component in front of all pieces: the root of an absolute path, or a leading dot -/
def leading (p : Text) : List Component :=
  match p with
  | '/' :: _ => [.root]
  | _ => if (pieces p).head? = some ['.'] then [.current] else []

def components (p : Text) : List Component := leading p ++ (pieces p).filterMap component?

def isAbsolute (p : Text) : Bool := p.head? == some '/'

/-- how many bytes a path, or a name, takes in UTF-8 -/
def size (p : Text) : Nat := p.foldr (fun c n => c.utf8Size + n) 0

/-! ## file names -/

def fileName? (p : Text) : Option Text :=
  match (components p).getLast? with
  | some (.normal name) => some name
  | _ => none

/-- stem and extension: what stands before and after the last dot.  There is no extension when
there is no dot, or only one and the name starts with it. -/
def splitExtension (name : Text) : Text × Option Text :=
  let after := (name.reverse.takeWhile (· ≠ '.')).reverse
  match name.reverse.dropWhile (· ≠ '.') with
  | _ :: c :: before => ((c :: before).reverse, some after)
  | _ => (name, none)

def extension? (p : Text) : Option Text := (fileName? p).bind fun name => (splitExtension name).2

/-! ## new paths from old -/

/-- the path `p` below `base`; an absolute `p` stands for itself -/
def join (base p : Text) : Text :=
  if isAbsolute p then p
  else if base = [] ∨ base.getLast? = some '/' then base ++ p
  else base ++ '/' :: p

/-- an extension with its dot; nothing for the empty one -/
def dotted (ext : Text) : Text := if ext = [] then [] else '.' :: ext

/-- The path cut off behind its file name, whose extension is replaced, or added.  A path without
a file name stays as it is. -/
def withExtension (ext : Text) (p : Text) : Text :=
  match (pieces p).reverse.dropWhile isIdle with
  | [] => p
  | name :: before =>
    if name = ['.', '.'] then p
    else ['/'].intercalate ((((splitExtension name).1 ++ dotted ext) :: before).reverse)

/-! ## matching extensions -/

/-- the letters of ASCII in lower case -/
def lower (s : Text) : Text := s.map Char.toLower

/-- the path has one of the extensions, which may be written with or without dots in front; the
case of ASCII letters does not count -/
def matchesExtension (extensions : List Text) (p : Text) : Bool :=
  match extension? p with
  | none => false
  | some ext => extensions.any fun e => lower (e.dropWhile (· = '.')) == lower ext

end Mustache.Path
