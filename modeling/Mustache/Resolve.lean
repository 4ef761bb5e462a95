import Mustache.Parse
import Mustache.PartialTable
import Mustache.Storage

/-!
# Loading partials

Every template that a tree refers to, directly or through other templates, is read, parsed and put
into a table: each name once, in the order in which the names are met when the tree is looked
through first and then each template in the order of its loading.  There may be at most `limit`
names; a name beyond it is a failure as soon as it is met, before anything else is read.

* `discover`  the names that are new, put at the end of a queue
* `loadFrom`  reading, parsing and discovering until the queue is empty
* `resolve`   from the references of a tree
-/

namespace Mustache

inductive ResolveError where
  | tooMany (limit : Nat)
  | unreadable (name : Text) (cause : ReadError)
  | unparsable (name : Text) (cause : ParseError)
  deriving DecidableEq, Repr

def ResolveError.message : ResolveError → Text
  | tooMany limit =>
    "Template references more than ".toList ++ Text.ofNat limit ++ " distinct partials".toList
  | unreadable name cause =>
    "Failed to load partial '".toList ++ name ++ "': ".toList ++ cause.message
  | unparsable name cause =>
    "Parse error in partial '".toList ++ name ++ "': ".toList ++ cause.message

/-- the queue with the new ones of these names behind it; `loaded` are the names already read -/
def discover (limit : Nat) (loaded queue : List Text) :
    List Text → Except ResolveError (List Text)
  | [] => .ok queue
  | name :: names =>
    if name ∈ loaded ∨ name ∈ queue then discover limit loaded queue names
    else if limit ≤ loaded.length + queue.length then .error (.tooMany limit)
    else discover limit loaded (queue ++ [name]) names

/-- each new name takes up a free place under the limit -/
theorem room_discover {limit : Nat} {loaded queue names queue' : List Text}
    (h : discover limit loaded queue names = .ok queue') :
    limit - (loaded.length + queue'.length) + queue'.length ≤
      limit - (loaded.length + queue.length) + queue.length := by
  fun_induction discover limit loaded queue names with
  | case1 => cases h; exact Nat.le_refl _
  | case2 _ _ _ _ ih => exact ih h
  | case3 => cases h
  | case4 queue name names _ hroom ih =>
    have := ih h
    simp only [List.length_append, List.length_singleton] at this
    omega

section
variable {σ : Type} [Storage σ]

/-- the names in `queue` are read in turn, and the names met on the way behind them -/
def loadFrom (limit : Nat) (table : PartialTable) (queue : List Text) (s : σ) :
    Except ResolveError PartialTable × σ :=
  match queue with
  | [] => (.ok table, s)
  | name :: rest =>
    match Storage.read s name .utf8 with
    | (.error e, s') => (.error (.unreadable name e), s')
    | (.ok source, s') =>
      match parse source with
      | .error e => (.error (.unparsable name e), s')
      | .ok tree =>
        let table' := table.add ⟨name, source, tree⟩
        match _h : discover limit table'.names rest tree.references with
        | .error e => (.error e, s')
        | .ok queue' => loadFrom limit table' queue' s'
termination_by limit - (table.size + queue.length) + queue.length
decreasing_by
  have h := room_discover _h
  simp only [table', PartialTable.length_names, PartialTable.size_add] at h ⊢
  rw [List.length_cons]
  omega

/-- the table of all partials a tree needs, and the storage after reading them -/
def resolve (limit : Nat) (t : Tree) (s : σ) : Except ResolveError PartialTable × σ :=
  match discover limit [] [] t.references with
  | .error e => (.error e, s)
  | .ok queue => loadFrom limit .empty queue s

end
end Mustache
