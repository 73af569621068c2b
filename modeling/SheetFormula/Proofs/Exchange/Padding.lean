import Mathlib.Data.List.Forall2
import SheetFormula.Json

/-!
# Padded values

A sender may put members into the records of a value that the records do not know, and may leave out
a tag that is null. `Json.Padded` says which values come of that: at any depth, in any number and
anywhere among the members of a record, but not beside the single member of an object that only says
of which sort its content is.

Main results:
* `Json.Padded.without_tag`: a null tag may be left out.
* `Json.Padded.exists_items`, `Json.Padded.exists_content` and `Json.Padded.exists_members`: what a
  padded list, sort or record looks like.
* `Json.record?_of_padded`: reading a record finds in a padded one what it finds in the record
  itself.
-/

namespace SheetFormula

namespace Json

/-! ## Padding -/

/-- The keys of the objects that are no records: their single member says of which sort the content
is. -/
def sorts : List (List String) :=
  [["Bad"], ["Ident"], ["BasicLit"], ["Paren"], ["Call"], ["Unary"], ["Binary"]]

/-- An object without the members under a key. -/
def without (key : String) : Json → Json
  | object members => object (members.filter (·.1 != key))
  | value => value

/-- Whether members are others with values that differ as `R` says. A null tag may be left out. -/
inductive KeptMembers (R : Json → Json → Prop) : (members kept : List (String × Json)) → Prop
  | nil : KeptMembers R [] []
  | cons {key : String} {value value' : Json} {members kept : List (String × Json)}
      (same : R value value') (rest : KeptMembers R members kept) :
      KeptMembers R ((key, value) :: members) ((key, value') :: kept)
  | untag {members kept : List (String × Json)} (rest : KeptMembers R members kept) :
      KeptMembers R (("tag", .null) :: members) kept

/-- What the record with these members knows of others. -/
def knownMembers (members others : List (String × Json)) : List (String × Json) :=
  others.filter (·.1 ∈ members.map Prod.fst)

/-- Whether a value is another one with padded records: what a record knows of its members is what
it has had, padded. -/
inductive Padded : (value padded : Json) → Prop
  | same (value : Json) : Padded value value
  | list {items items' : List Json} (each : List.Forall₂ Padded items items') :
      Padded (.list items) (.list items')
  | sort {key : String} {content content' : Json} (sort : [key] ∈ sorts)
      (inside : Padded content content') :
      Padded (.object [(key, content)]) (.object [(key, content')])
  | record {members padded : List (String × Json)} (record : members.map Prod.fst ∉ sorts)
      (known : KeptMembers Padded members (knownMembers members padded)) :
      Padded (.object members) (.object padded)

namespace KeptMembers

variable {R : Json → Json → Prop} {members kept : List (String × Json)}

/-- Members are themselves with the same values, if each value may stand for itself. -/
theorem of_refl (same : ∀ value, R value value) (members : List (String × Json)) :
    KeptMembers R members members := by
  induction members with
  | nil => exact .nil
  | cons member members ih => exact .cons (same member.2) ih

/-- Nothing is found under a key that no member has. -/
theorem find?_eq_none {key : String} (h : KeptMembers R members kept)
    (absent : key ∉ members.map Prod.fst) : kept.find? (·.1 == key) = none := by
  induction h with
  | nil => rfl
  | cons _ _ ih =>
    rw [List.map_cons, List.mem_cons, not_or] at absent
    rw [List.find?_cons_of_neg (by simpa using Ne.symm absent.1)]
    exact ih absent.2
  | untag _ ih =>
    rw [List.map_cons, List.mem_cons, not_or] at absent
    exact ih absent.2

/-- Each member is found under its key, unless it is a null tag and left out. -/
theorem find?_of_mem {key : String} {value : Json} (h : KeptMembers R members kept)
    (distinct : (members.map Prod.fst).Nodup) (mem : (key, value) ∈ members) :
    (∃ value', kept.find? (·.1 == key) = some (key, value') ∧ R value value') ∨
      kept.find? (·.1 == key) = none ∧ (key, value) = ("tag", .null) := by
  induction h with
  | nil => cases mem
  | @cons first _ value' _ _ same _ ih =>
    obtain ⟨fresh, distinct⟩ := List.nodup_cons.mp distinct
    rcases List.mem_cons.mp mem with here | later
    · cases here
      exact .inl ⟨value', List.find?_cons_of_pos (by simp), same⟩
    · have differ : first ≠ key := by
        rintro rfl
        exact fresh (List.mem_map.mpr ⟨_, later, rfl⟩)
      rw [List.find?_cons_of_neg (by simpa using differ)]
      exact ih distinct later
  | untag rest ih =>
    obtain ⟨fresh, distinct⟩ := List.nodup_cons.mp distinct
    rcases List.mem_cons.mp mem with here | later
    · cases here
      exact .inr ⟨rest.find?_eq_none fresh, rfl⟩
    · exact ih distinct later

end KeptMembers

/-- A member that is known is found among what is known. -/
theorem find?_knownMembers {members others : List (String × Json)} {key : String}
    (known : key ∈ members.map Prod.fst) :
    (knownMembers members others).find? (·.1 == key) = others.find? (·.1 == key) := by
  rw [knownMembers, List.find?_filter]
  congr 1
  funext member
  by_cases same : member.1 = key
  · simp [same, known]
  · simp [same]

/-- A record knows all of its own members. -/
theorem knownMembers_self (members : List (String × Json)) :
    knownMembers members members = members :=
  List.filter_eq_self.mpr fun _ mem => decide_eq_true (List.mem_map_of_mem mem)

namespace Padded

/-- A null tag may be left out of a record. -/
theorem without_tag {members : List (String × Json)} (record : members.map Prod.fst ∉ sorts)
    (null : ∀ value, ("tag", value) ∈ members → value = .null) :
    Padded (.object members) ((object members).without "tag") := by
  refine .record record ?_
  have known : knownMembers members (members.filter (·.1 != "tag")) =
      members.filter (·.1 != "tag") := by
    refine List.filter_eq_self.mpr fun member mem => decide_eq_true ?_
    exact List.mem_map_of_mem (List.mem_of_mem_filter mem)
  rw [known]
  clear known record
  induction members with
  | nil => exact .nil
  | cons member members ih =>
    obtain ⟨key, value⟩ := member
    have rest := ih fun value mem => null value (List.mem_cons_of_mem _ mem)
    by_cases tag : key = "tag"
    · obtain rfl := tag
      rw [null value List.mem_cons_self]
      exact .untag rest
    · rw [List.filter_cons_of_pos (by simpa using tag)]
      exact .cons (.same value) rest

end Padded

/-! ## Values of known form -/

namespace Padded

variable {v : Json}

/-- A number cannot be padded. -/
theorem eq_of_number {n : Nat} (h : Padded (.number n) v) : v = .number n := by
  cases h
  rfl

/-- A text cannot be padded. -/
theorem eq_of_text {s : String} (h : Padded (.text s) v) : v = .text s := by
  cases h
  rfl

/-- The null value cannot be padded. -/
theorem eq_of_null (h : Padded .null v) : v = .null := by
  cases h
  rfl

/-- A padded list has the items of the list, each of them padded. -/
theorem exists_items {items : List Json} (h : Padded (.list items) v) :
    ∃ items', v = .list items' ∧ List.Forall₂ Padded items items' := by
  cases h with
  | same => exact ⟨items, rfl, List.forall₂_same.mpr fun item _ => .same item⟩
  | list each => exact ⟨_, rfl, each⟩

/-- An object that says of which sort its content is takes no further members; its content is
padded. -/
theorem exists_content {key : String} {content : Json} (sort : [key] ∈ sorts)
    (h : Padded (.object [(key, content)]) v) :
    ∃ content', v = .object [(key, content')] ∧ Padded content content' := by
  cases h with
  | same => exact ⟨content, rfl, .same content⟩
  | sort _ inside => exact ⟨_, rfl, inside⟩
  | record record => exact absurd sort record

/-- A padded record is a record, and what it holds of the known members are these, padded. -/
theorem exists_members {members : List (String × Json)} (record : members.map Prod.fst ∉ sorts)
    (h : Padded (.object members) v) :
    ∃ padded, v = .object padded ∧
      KeptMembers Padded members (knownMembers members padded) := by
  cases h with
  | same =>
    refine ⟨members, rfl, ?_⟩
    rw [knownMembers_self]
    exact .of_refl .same members
  | sort sort => exact absurd sort record
  | record _ known => exact ⟨_, rfl, known⟩

end Padded

/-! ## Reading padded records -/

/-- Looking up a member finds the first one under its key. -/
theorem map_member? (members : List (String × Json)) (key : String) :
    (member? members key).map (·.val) = (members.find? (·.1 == key)).map (·.2) := by
  unfold member?
  split
  · next absent => simp [absent]
  · next found => simp [found]

/-- Whether what was read under a key is the member, padded, or the member is a null tag and left
out. -/
def Kept {whole : Json} (member : String × Json) (part : Option (Part whole)) : Prop :=
  match part with
  | some part => Padded member.2 part.val
  | none => member = ("tag", .null)

/-- Only a tag is left out. -/
theorem Kept.exists_part {whole value : Json} {key : String} {part : Option (Part whole)}
    (kept : Kept (key, value) part) (other : key ≠ "tag") :
    ∃ found, part = some found ∧ Padded value found.val := by
  cases part with
  | none => exact absurd (congrArg Prod.fst kept) other
  | some found => exact ⟨found, rfl, kept⟩

/-- Where no member is a tag, none is left out. -/
theorem exists_parts_of_kept {whole : Json} {members : List (String × Json)}
    {parts : List (Option (Part whole))} (untagged : ∀ member ∈ members, member.1 ≠ "tag")
    (kept : List.Forall₂ Kept members parts) :
    ∃ found, parts = found.map some ∧
      List.Forall₂ (fun member part => Padded member.2 part.val) members found := by
  induction kept with
  | nil => exact ⟨[], rfl, .nil⟩
  | cons here _ ih =>
    obtain ⟨first, later⟩ := List.forall_mem_cons.mp untagged
    obtain ⟨part, rfl, same⟩ := here.exists_part first
    obtain ⟨found, rfl, each⟩ := ih later
    exact ⟨part :: found, rfl, .cons same each⟩

section

variable {members : List (String × Json)} {v : Json} (keys : List String)

/-- **In a padded record all members are found.** -/
theorem record?_of_padded (own : members.map Prod.fst = keys)
    (fit : keys.Nodup ∧ keys ∉ sorts) (h : Padded (.object members) v) :
    ∃ parts, v.record? keys = some parts ∧ List.Forall₂ Kept members parts := by
  subst own
  obtain ⟨padded, rfl, known⟩ := h.exists_members fit.2
  refine ⟨_, rfl, ?_⟩
  rw [List.map_map, List.forall₂_map_right_iff, List.forall₂_same]
  rintro ⟨key, value⟩ mem
  have read := map_member? padded key
  rw [← find?_knownMembers (List.mem_map_of_mem (f := Prod.fst) mem)] at read
  show Kept (key, value) (member? padded key)
  rcases known.find?_of_mem fit.1 mem with ⟨value', found, same⟩ | ⟨absent, tag⟩
  · rw [found] at read
    obtain ⟨part, here, rfl⟩ := Option.map_eq_some_iff.mp read
    rw [here]
    exact same
  · rw [absent] at read
    rw [Option.map_eq_none_iff.mp read]
    exact tag

/-- In a padded record without a tag no member is left out. -/
theorem record?_of_padded_untagged (own : members.map Prod.fst = keys)
    (fit : (keys.Nodup ∧ keys ∉ sorts) ∧ "tag" ∉ keys) (h : Padded (.object members) v) :
    ∃ parts, v.record? keys = some (parts.map some) ∧
      List.Forall₂ (fun member part => Padded member.2 part.val) members parts := by
  obtain ⟨parts, read, kept⟩ := record?_of_padded keys own fit.1 h
  have untagged : ∀ member ∈ members, member.1 ≠ "tag" := by
    rintro member mem tag
    exact fit.2 (own ▸ tag ▸ List.mem_map_of_mem mem)
  obtain ⟨found, rfl, each⟩ := exists_parts_of_kept untagged kept
  exact ⟨found, read, each⟩

end

end Json

end SheetFormula
