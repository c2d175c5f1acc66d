import MonkeyLang.Evaluation
import MonkeyLang.Proofs.Run.Gives
import MonkeyLang.Proofs.Store.Confined

/-!
What the steps give that look at environments or change them, as long as these stay confined.
-/

namespace MonkeyLang

open Store

variable {E : Address → Prop} {P : Value → Prop} {env : Address}

namespace Run

theorem gives_bindName {name : String} {value : Value} (h : P value) :
    Gives (Confined E P) (fun _ ↦ True) (bindName env name value) :=
  fun _ hstore ↦ ⟨trivial, hstore.bind h⟩

theorem gives_enclose {outer : Address} (h : E outer) : Gives (Confined E P) E (enclose outer) :=
  fun _ hstore ↦ ⟨hstore.next _ (Nat.le_refl _), hstore.enclose h⟩

theorem gives_lookup? (henv : E env) (name : String) :
    Gives (Confined E P) (fun found ↦ ∀ value ∈ found, P value) (lookup? env name) :=
  fun _ hstore ↦ ⟨fun _ hget ↦ hstore.get? henv hget, hstore⟩

end Run

namespace Evaluation

open Run

theorem gives_lookup {registry : Registry} (hbuiltin : ∀ function, P (.builtin function))
    (henv : E env) (name : String) :
    Gives (Confined E P) (fun value ↦ (∃ fault, value = .error fault) ∨ P value)
      (lookup registry env name) := by
  refine gives_bind (gives_lookup? henv name) fun found hfound ↦ ?_
  split
  · exact gives_pure (.inr (hfound _ rfl))
  · split
    · exact gives_pure (.inr (hbuiltin _))
    · exact gives_pure (.inl ⟨_, rfl⟩)

theorem gives_bindTo (target : Node) {value : Value} (h : P value) :
    Gives (Confined E P) (fun _ ↦ True) (bindTo env target value) := by
  unfold bindTo
  split
  · exact gives_bindName h
  · exact gives_bindName h
  · exact gives_pure trivial
  · exact gives_pure trivial
  · exact fun _ hstore ↦ hstore

end Evaluation

end MonkeyLang
