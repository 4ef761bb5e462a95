import Mathlib.Data.List.Basic
import Mustache.Proofs.Markup

/-!
# Escaped text read back

All entities begin with an ampersand, and none of them begins another one.  An ampersand of the text
is itself written as an entity, so an entity in an escaped text is always one that was written for a
character, and reading the entities back gives the text.

* `Text.entities_apart`          no entity begins another one
* `Text.unescape_escape_append`  an escaped text read back, whatever follows it
* `Text.Escaped`                 only entities, and no other character with a meaning in HTML
* `Text.escape_unescape`         such a text is the escaped form of what is read from it
* `escape_lossless`              what escaping does to texts
-/

namespace Mustache

namespace Text

/-! ## entities -/

theorem entities_apart :
    entities.Pairwise fun d e => ¬ d.2 <+: e.2 ∧ ¬ e.2 <+: d.2 := by decide

theorem head?_of_mem_entities {e : Char × Text} (he : e ∈ entities) : e.2.head? = some '&' := by
  have hall : ∀ e ∈ entities, e.2.head? = some '&' := by decide
  exact hall e he

theorem escapeChar_of_mem_entities {e : Char × Text} (he : e ∈ entities) :
    escapeChar e.1 = e.2 := by
  have hall : ∀ e ∈ entities, escapeChar e.1 = e.2 := by decide
  exact hall e he

theorem entityAt?_append {e : Char × Text} (he : e ∈ entities) (s : Text) :
    entityAt? (e.2 ++ s) = some (e.1, s) := by
  obtain ⟨before, after, hsplit⟩ := List.append_of_mem he
  have hapart := entities_apart
  rw [hsplit, List.pairwise_append] at hapart
  rw [entityAt?, List.findSome?_eq_some_iff]
  refine ⟨before, e, after, hsplit, by rw [after?_append]; rfl, fun d hd => ?_⟩
  obtain ⟨hde, hed⟩ := hapart.2.2 d hd e List.mem_cons_self
  rw [Option.map_eq_none_iff]
  cases hr : after? d.2 (e.2 ++ s) with
  | none => rfl
  | some r =>
    -- of two beginnings of one text the shorter begins the longer
    have hpre : d.2 <+: e.2 ++ s := ⟨r, (after?_eq_some hr).symm⟩
    rcases List.prefix_or_prefix_of_prefix hpre (List.prefix_append e.2 s) with h | h
    · exact absurd h hde
    · exact absurd h hed

theorem exists_of_entityAt? {s rest : Text} {c : Char} (h : entityAt? s = some (c, rest)) :
    ∃ e ∈ entities, e.1 = c ∧ s = e.2 ++ rest := by
  obtain ⟨e, he, hr⟩ := List.exists_of_findSome?_eq_some h
  obtain ⟨r, hafter, hpair⟩ := Option.map_eq_some_iff.1 hr
  obtain ⟨hc, rfl⟩ := Prod.mk.inj hpair
  exact ⟨e, he, hc, after?_eq_some hafter⟩

theorem entityAt?_cons_of_ne {c : Char} (hc : c ≠ '&') (s : Text) : entityAt? (c :: s) = none := by
  cases h : entityAt? (c :: s) with
  | none => rfl
  | some q =>
    obtain ⟨e, he, -, hs⟩ := exists_of_entityAt? h
    have hhead : (e.2 ++ q.2).head? = some '&' := by
      rw [List.head?_append, head?_of_mem_entities he]
      rfl
    rw [← hs] at hhead
    exact absurd (Option.some.inj hhead) hc

/-! ## reading back -/

/-- nothing that follows an escaped text changes how it is read -/
theorem unescape_escape_append (s t : Text) : unescape (escape s ++ t) = s ++ unescape t := by
  induction s with
  | nil => rfl
  | cons c s ih =>
    rw [escape_cons, List.append_assoc, List.cons_append, ← ih]
    rcases escapeChar_cases c with he | ⟨hplain, hesc⟩
    · exact unescape_of_entityAt? (entityAt?_append he _)
    · have hc : c ≠ '&' := by
        rintro rfl
        exact hplain (by decide)
      rw [hesc]
      exact unescape_cons_of_none (entityAt?_cons_of_ne hc _)

theorem unescape_escape (s : Text) : unescape (escape s) = s := by
  have h := unescape_escape_append s []
  rwa [List.append_nil, unescape_nil, List.append_nil] at h

theorem escape_injective : Function.Injective escape :=
  Function.LeftInverse.injective unescape_escape

/-! ## escaped texts -/

/-- every ampersand begins an entity, and no other character has a meaning in HTML -/
def Escaped (s : Text) : Prop :=
  OnlyEntities s ∧ ∀ x ∈ entities.map Prod.fst, x ≠ '&' → x ∉ s

theorem escaped_escape (s : Text) : (escape s).Escaped :=
  ⟨onlyEntities_escape s, fun _ hx hne => notMem_escape hx hne s⟩

theorem Escaped.of_append {s t : Text} (h : (s ++ t).Escaped) : t.Escaped := by
  refine ⟨fun before after hsplit => h.1 (s ++ before) after ?_, fun x hx hne hmem => ?_⟩
  · rw [hsplit, List.append_assoc]
  · exact h.2 x hx hne (List.mem_append_right s hmem)

theorem escape_unescape {s : Text} (h : s.Escaped) : escape (unescape s) = s := by
  fun_induction unescape s with
  | case1 => rfl
  | case2 c s d rest hat ih =>
    obtain ⟨e, he, rfl, hs⟩ := exists_of_entityAt? hat
    rw [hs] at h ⊢
    rw [escape_cons, escapeChar_of_mem_entities he, ih h.of_append]
  | case3 c s hat ih =>
    have hc : c ≠ '&' := by
      rintro rfl
      obtain ⟨e, he, rest, hrest⟩ := h.1 [] s rfl
      rw [← hrest, entityAt?_append he] at hat
      cases hat
    rw [escape_cons, ih (Escaped.of_append (s := [c]) h)]
    rcases escapeChar_cases c with he | ⟨-, hesc⟩
    · exact absurd List.mem_cons_self (h.2 c (List.mem_map_of_mem he) hc)
    · rw [hesc]
      rfl

end Text

/-- **Escaping loses nothing.**  What an escaped variable puts behind the text on the canvas is read
back as the text of its value, so different texts are escaped differently; texts put together are
escaped apart; every ampersand that is written begins an entity; and a text in which this is so and
no other character has a meaning in HTML is the escaped form of some text. -/
theorem escape_lossless (s : Text) :
    (∀ (c : Canvas) name v, c.frames.lookup name = some v → v.text = s →
      ∃ c', Rendering.var name true c = (c', none) ∧ c'.frames = c.frames ∧
        c'.text = c.text ++ Text.escape s) ∧
    Text.unescape (Text.escape s) = s ∧
    (∀ t, Text.escape s = Text.escape t → s = t) ∧
    (∀ t, Text.escape (s ++ t) = Text.escape s ++ Text.escape t) ∧
    (∀ before after, Text.escape s = before ++ '&' :: after →
      ∃ e ∈ Text.entities, e.2 <+: '&' :: after) ∧
    (s.Escaped ↔ ∃ t, Text.escape t = s) := by
  refine ⟨?var, Text.unescape_escape s, fun t h => Text.escape_injective h, Text.escape_append s,
    Text.onlyEntities_escape s, fun h => ⟨Text.unescape s, Text.escape_unescape h⟩, ?escaped⟩
  case var =>
    intro c name v hv hs
    refine ⟨c.write (Text.escape s), ?_, rfl, Canvas.text_write _ c⟩
    rw [Rendering.var, hv, ← hs]
    rfl
  case escaped =>
    rintro ⟨t, rfl⟩
    exact Text.escaped_escape t

-- a text with an entity in it, and with the beginning of one
theorem escape_lossless_entity :
    Text.unescape "&amp;lt; &amp;#39&#39;".toList = "&lt; &#39'".toList ∧
    (∃ c, Rendering.var .implicit true ⟨.ofRoot (.string "&lt; &#39'".toList), ["<".toList]⟩ =
        (c, none) ∧ c.text = "<&amp;lt; &amp;#39&#39;".toList) ∧
    ∃ e ∈ Text.entities, e.2 <+: "&#39;".toList := by
  obtain ⟨hvar, hback, -, -, hamp, -⟩ := escape_lossless "&lt; &#39'".toList
  obtain ⟨c, hc, -, htext⟩ := hvar
    ⟨.ofRoot (.string "&lt; &#39'".toList), ["<".toList]⟩ .implicit _ rfl rfl
  exact ⟨hback, ⟨c, hc, htext⟩, hamp "&amp;lt; &amp;#39".toList "#39;".toList rfl⟩

end Mustache
