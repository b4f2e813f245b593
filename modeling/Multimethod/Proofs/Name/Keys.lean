import Multimethod.Name.Form
import Multimethod.Proofs.Name.Codes

/-!
# What a key tells of a name

A key has one name. Of references that some name is taken for, the key and the kind tell the text.

* `Name.mangle_injective` — names of one key are equal.
* `MemberName.surface_eq_of_isSpelled` — so are the texts of references of one key and kind.
-/

namespace Multimethod

/-! ## References that a name spells -/

/-- The references that a name is taken for. -/
def NameForm.members : NameForm → List MemberName
  | .plain member | .selector member => [member]
  | .qualified _ member whole => [member, whole]

/-- The text of a reference to a member: its name behind the marker of its kind. -/
def MemberKind.mark : MemberKind → List Char → List Char
  | .fieldGet, bare => '-' :: bare
  | .fieldSet, bare => '=' :: bare
  | _, bare => bare

namespace Name

theorem mangle_injective {m n : String} (h : mangle m = mangle n) : m = n :=
  mangleBy_injective Text.isAlphanumeric h

theorem mark_splitMarker (qualified : Bool) (text : List Char) :
    (splitMarker qualified text).1.mark (splitMarker qualified text).2 = text := by
  unfold splitMarker
  split
  · rfl
  · rfl
  · split <;> rfl

end Name

namespace MemberName

/-- Is the reference one that some name is taken for? -/
def IsSpelled (member : MemberName) : Prop := ∃ name, member ∈ (Name.classify name).members

/-- The text of a reference is a name behind a marker, and the key is that of the name. -/
def IsMarked (member : MemberName) : Prop :=
  ∃ bare, member.surface = String.ofList (member.kind.mark bare) ∧
    member.key = Name.mangle (String.ofList bare)

theorem isMarked_plainMember (text : List Char) (pin : Option Nat) :
    (Name.plainMember text pin).IsMarked := ⟨text, rfl, rfl⟩

theorem isMarked_markedMember (qualified : Bool) (text : List Char) (pin : Option Nat) :
    (Name.markedMember qualified text pin).IsMarked :=
  ⟨(Name.splitMarker qualified text).2,
    congrArg String.ofList (Name.mark_splitMarker qualified text).symm, rfl⟩

theorem IsSpelled.isMarked {member : MemberName} (h : member.IsSpelled) : member.IsMarked := by
  obtain ⟨name, hmem⟩ := h
  unfold Name.classify at hmem
  simp only at hmem
  split at hmem
  · rw [List.mem_singleton.1 hmem]
    exact isMarked_markedMember _ _ _
  · split at hmem
    · rcases List.mem_cons.1 hmem with rfl | hmem
      · exact isMarked_markedMember _ _ _
      · rw [List.mem_singleton.1 hmem]
        exact isMarked_plainMember _ _
    · rw [List.mem_singleton.1 hmem]
      exact isMarked_plainMember _ _

/-- Of references that some name is taken for, the key and the kind tell the text. -/
theorem surface_eq_of_isSpelled {m n : MemberName} (hm : m.IsSpelled) (hn : n.IsSpelled)
    (hkey : m.key = n.key) (hkind : m.kind = n.kind) : m.surface = n.surface := by
  obtain ⟨bare, hsurface, hbare⟩ := hm.isMarked
  obtain ⟨bare', hsurface', hbare'⟩ := hn.isMarked
  have hnames := Name.mangle_injective (hbare.symm.trans (hkey.trans hbare'))
  rw [hsurface, hsurface', hkind, String.ofList_injective hnames]

theorem isSpelled_of_plain {name : String} {member : MemberName}
    (h : Name.classify name = .plain member) : member.IsSpelled :=
  ⟨name, by rw [h]; exact List.mem_singleton.2 rfl⟩

theorem isSpelled_of_selector {name : String} {member : MemberName}
    (h : Name.classify name = .selector member) : member.IsSpelled :=
  ⟨name, by rw [h]; exact List.mem_singleton.2 rfl⟩

end MemberName

end Multimethod
