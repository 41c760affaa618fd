import Mathlib.Data.List.Basic
import ResourceApi.Json.Reader
import ResourceApi.Proofs.Json.Members

/-!
Documents whose objects have no key twice, all the way down. Those that are read from text have this form, since a member
that comes again takes the place of the one before it.
-/

namespace ResourceApi.Json

mutual
/-- Whether something holds of a value and of all values inside it. -/
def everywhere (good : Json → Bool) : Json → Bool
  | .list items => good (.list items) && everywhereItems good items
  | .object members => good (.object members) && everywhereMembers good members
  | j => good j
termination_by structural j => j

def everywhereItems (good : Json → Bool) : List Json → Bool
  | [] => true
  | j :: rest => everywhere good j && everywhereItems good rest
termination_by structural js => js

def everywhereMembers (good : Json → Bool) : List (String × Json) → Bool
  | [] => true
  | (_, j) :: rest => everywhere good j && everywhereMembers good rest
termination_by structural ms => ms
end

/-- Whether no two members of an object have one key. -/
def hasDistinctKeys : Json → Bool
  | .object members => decide (Members.keys members).Nodup
  | _ => true

/-- Whether no object of a document has two members of one key. -/
def isKeyed (j : Json) : Bool := j.everywhere hasDistinctKeys

variable {good : Json → Bool} {j : Json} {items : List Json} {members : Members}

theorem everywhere_list :
    everywhere good (.list items) ↔ good (.list items) ∧ ∀ item ∈ items, everywhere good item := by
  have each : everywhereItems good items ↔ ∀ item ∈ items, everywhere good item := by
    induction items with
    | nil => simp [everywhereItems]
    | cons item rest ih => simp [everywhereItems, ih]
  rw [everywhere, Bool.and_eq_true, each]

theorem everywhere_object :
    everywhere good (.object members) ↔ good (.object members) ∧ ∀ member ∈ members, everywhere good member.2 := by
  have each : everywhereMembers good members ↔ ∀ member ∈ members, everywhere good member.2 := by
    induction members with
    | nil => simp [everywhereMembers]
    | cons member rest ih => simp [everywhereMembers, ih]
  rw [everywhere, Bool.and_eq_true, each]

theorem isKeyed_of_isScalar (scalar : j.isScalar) : j.isKeyed := by
  cases j with
  | list | object => cases scalar
  | _ => rfl

theorem isKeyed_list : isKeyed (.list items) ↔ ∀ item ∈ items, isKeyed item := by
  rw [isKeyed, everywhere_list]
  simp [hasDistinctKeys, isKeyed]

theorem isKeyed_object :
    isKeyed (.object members) ↔ (Members.keys members).Nodup ∧ ∀ member ∈ members, isKeyed member.2 := by
  rw [isKeyed, everywhere_object]
  simp [hasDistinctKeys, isKeyed]

theorem isKeyed_put (keyed : isKeyed (.object members)) (key : String) {value : Json} (inner : value.isKeyed) :
    isKeyed (.object (members.put key value)) := by
  obtain ⟨distinct, each⟩ := isKeyed_object.1 keyed
  refine isKeyed_object.2 ⟨?_, fun member listed => ?_⟩
  · by_cases given : members.has key
    · rwa [Members.keys_put_of_has given]
    · rw [Members.keys_put_of_not_has given]
      exact List.nodup_append.2 ⟨distinct, by simp, fun name listed _ last same => given
        (Members.has_iff.2 (List.mem_singleton.1 last ▸ same ▸ listed))⟩
  · rcases Members.mem_put listed with rfl | old
    · exact inner
    · exact each member old

namespace Reader

/-- What is read as a number has nothing inside. -/
theorem isScalar_of_number {cs rest : List Char} (read : number cs = some (j, rest)) : j.isScalar := by
  unfold number at read
  split at read
  split at read
  split at read
  · cases read
  split at read
  split at read
  split at read
  · cases read
    rfl
  · cases read
    rfl

/-- With some fuel, what is read is keyed if the items and members before it are. -/
structure KeepsKeys (fuel : Nat) : Prop where
  ofValue {cs rest : List Char} {j : Json} : value fuel cs = some (j, rest) → j.isKeyed
  ofItems {done : List Json} {cs rest : List Char} {j : Json} :
    isKeyed (.list done) → Reader.items fuel done cs = some (j, rest) → j.isKeyed
  ofMembers {done : Members} {cs rest : List Char} {j : Json} :
    isKeyed (.object done) → Reader.members fuel done cs = some (j, rest) → j.isKeyed

namespace KeepsKeys

variable {fuel : Nat} (keeps : KeepsKeys fuel) {cs rest : List Char}
include keeps

theorem value_succ (read : value (fuel + 1) cs = some (j, rest)) : j.isKeyed := by
  have literal {value : Json} (scalar : value.isScalar) {found : Option (List Char)}
      (read : found.map (value, ·) = some (j, rest)) : j.isKeyed := by
    obtain ⟨_, -, same⟩ := Option.map_eq_some_iff.1 read
    cases same
    exact isKeyed_of_isScalar scalar
  rw [value.eq_def] at read
  dsimp only at read
  split at read
  · obtain ⟨_, -, same⟩ := Option.map_eq_some_iff.1 read
    cases same
    rfl
  · split at read
    · cases read
      rfl
    · exact keeps.ofItems rfl read
  · split at read
    · cases read
      rfl
    · exact keeps.ofMembers rfl read
  iterate 6 exact literal rfl read
  · exact isKeyed_of_isScalar (isScalar_of_number read)

theorem items_succ {done : List Json} (keyed : isKeyed (.list done))
    (read : Reader.items (fuel + 1) done cs = some (j, rest)) : j.isKeyed := by
  rw [Reader.items] at read
  obtain ⟨⟨item, after⟩, first, read⟩ := Option.bind_eq_some_iff.1 read
  have keyed : isKeyed (.list (item :: done)) :=
    isKeyed_list.2 (List.forall_mem_cons.2 ⟨keeps.ofValue first, isKeyed_list.1 keyed⟩)
  dsimp only at read
  split at read
  · exact keeps.ofItems keyed read
  · cases read
    exact isKeyed_list.2 fun item listed => isKeyed_list.1 keyed item (List.mem_reverse.1 listed)
  · cases read

theorem members_succ {done : Members} (keyed : isKeyed (.object done))
    (read : Reader.members (fuel + 1) done cs = some (j, rest)) : j.isKeyed := by
  rw [Reader.members.eq_def] at read
  dsimp only at read
  split at read
  · obtain ⟨⟨key, after⟩, -, read⟩ := Option.bind_eq_some_iff.1 read
    dsimp only at read
    split at read
    · obtain ⟨⟨value, after⟩, first, read⟩ := Option.bind_eq_some_iff.1 read
      have keyed := isKeyed_put keyed key (keeps.ofValue first)
      dsimp only at read
      split at read
      · exact keeps.ofMembers keyed read
      · cases read
        exact keyed
      · cases read
    · cases read
  · cases read

end KeepsKeys

theorem keepsKeys (fuel : Nat) : KeepsKeys fuel := by
  induction fuel with
  | zero => exact ⟨nofun, nofun, nofun⟩
  | succ fuel keeps => exact ⟨keeps.value_succ, keeps.items_succ, keeps.members_succ⟩

end Reader

/-- No object of a document that is read has a key twice. -/
theorem isKeyed_of_read {s : String} (read : Json.read s = some j) : j.isKeyed := by
  unfold Json.read at read
  dsimp only at read
  split at read
  · next found =>
    split at read
    · cases read
      exact (Reader.keepsKeys _).ofValue found
    · cases read
  · cases read

end ResourceApi.Json
