import Mustache.Options
import Mustache.Path
import Mustache.Render
import Mustache.Resolve
import Mustache.Text.Quoted

/-!
# Templates

A template is a text with options.  Compiling it makes its *artifact*: the nodes of the text and
all the partials they need, read from a storage.  Rendering uses the artifact alone.

* `Template.ofText`, `Template.build`  a template that is not compiled yet
* `Template.compile`                   the artifact is made afresh; the old one goes first
* `Template.render`                    the artifact, rendered for some data
-/

namespace Mustache

structure Artifact where
  tree : Tree
  table : PartialTable
  deriving Repr

/-- the artifact rendered for some data, an empty map if there is none -/
def Artifact.render (a : Artifact) (data : Option Value) (o : Options) :
    Except RecursionError Text :=
  match Mustache.render a.table.tree? o.maxDepth a.tree (data.getD .emptyMap) with
  | .error e => .error e
  | .ok out => .ok (if o.trimOutput then Text.trim out else out)

inductive TemplateError where
  | missingStorage
  | parse (cause : ParseError)
  | resolve (cause : ResolveError)
  | notCompiled
  | recursion (cause : RecursionError)
  deriving DecidableEq, Repr

def TemplateError.message : TemplateError → Text
  | missingStorage => "MustacheTemplate requires an IoInterface as its second argument".toList
  | parse cause => cause.message
  | resolve cause => cause.message
  | notCompiled => "Template has not been compiled; call compile() before render()".toList
  | recursion cause => cause.message

structure Template where
  source : Text
  options : Options
  artifact : Option Artifact
  deriving Repr

namespace Template

def ofText (source : Text) : Template := ⟨source, .standard, none⟩

/-- a template for use with a storage; without one it cannot be made -/
def build {σ : Type} (source : Text) (options : Options) (storage : Option σ) :
    Except TemplateError Template :=
  match storage with
  | none => .error .missingStorage
  | some _ => .ok ⟨source, options, none⟩

def isCompiled (t : Template) : Bool := t.artifact.isSome

/-- what the text and the storage give, and the storage afterwards -/
def makeArtifact {σ : Type} [Storage σ] (t : Template) (s : σ) :
    Except TemplateError Artifact × σ :=
  match Mustache.parse t.source with
  | .error e => (.error (.parse e), s)
  | .ok tree =>
    match Mustache.resolve t.options.maxPartials tree s with
    | (.error e, s') => (.error (.resolve e), s')
    | (.ok table, s') => (.ok ⟨tree, table⟩, s')

/-- the template after compiling, with the error if there was one, and the storage afterwards -/
def compile {σ : Type} [Storage σ] (t : Template) (s : σ) :
    Template × Option TemplateError × σ :=
  match t.makeArtifact s with
  | (.error e, s') => ({ t with artifact := none }, some e, s')
  | (.ok a, s') => ({ t with artifact := some a }, none, s')

/-- the compiled template under other options than its own -/
def renderWith (t : Template) (data : Option Value) (o : Options) : Except TemplateError Text :=
  match t.artifact with
  | none => .error .notCompiled
  | some a => (a.render data o).mapError .recursion

def render (t : Template) (data : Option Value) : Except TemplateError Text :=
  t.renderWith data t.options

/-! ## files -/

/-- the extensions of files that hold templates -/
def extensions : List Text := [".mst".toList, ".mustache".toList]

def supportsPath (p : Text) : Bool := Path.matchesExtension extensions p

/-- the template as one line of text -/
def describe (t : Template) : Text :=
  "MustacheTemplate \x7b source: ".toList ++ Text.quote t.source ++ ", options: ".toList ++
    t.options.describe ++ ", compiled: ".toList ++
    (if t.isCompiled then "true" else "false").toList ++ ", .. \x7d".toList

end Template
end Mustache
