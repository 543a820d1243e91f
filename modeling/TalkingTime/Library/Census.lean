import Mathlib.Data.Finset.Card
import Mathlib.Data.Fintype.Card
import Mathlib.Logic.Function.Basic

/-! Bounds on how many members of an arbitrary population satisfy a predicate,
and how such a bound moves when one member joins or leaves. The population need
not be finite: a bound speaks about its finite sets. -/

namespace Census

variable {Member : Type*} {holds later : Member → Prop} {bound : Nat}

/-- Fewer than `bound` members satisfy `holds`. -/
def Fewer (bound : Nat) (holds : Member → Prop) : Prop :=
  ∀ crowd : Finset Member, (∀ member ∈ crowd, holds member) → crowd.card < bound

theorem fewer_none (never : ∀ member, ¬ holds member) : Fewer (bound + 1) holds := by
  intro crowd inside
  have empty : crowd = ∅ := by
    apply Finset.eq_empty_of_forall_notMem
    intro member present
    exact never member (inside member present)
  simp [empty]

theorem Fewer.none (fewer : Fewer 1 holds) (member : Member) : ¬ holds member := by
  intro present
  have size := fewer {member} (by simpa using present)
  simp at size

theorem Fewer.weaken {wider : Nat} (fewer : Fewer bound holds) (le : bound ≤ wider) :
    Fewer wider holds := by
  intro crowd inside
  exact Nat.lt_of_lt_of_le (fewer crowd inside) le

theorem Fewer.join [DecidableEq Member] (fewer : Fewer bound holds) (newcomer : Member)
    (imp : ∀ member, later member → member = newcomer ∨ holds member) :
    Fewer (bound + 1) later := by
  intro crowd inside
  have remaining : (crowd.erase newcomer).card < bound := by
    apply fewer
    intro member present
    obtain ⟨different, present⟩ := Finset.mem_erase.mp present
    exact (imp member (inside member present)).resolve_left different
  have size : crowd.card - 1 ≤ (crowd.erase newcomer).card := Finset.pred_card_le_card_erase
  omega

theorem Fewer.leave [DecidableEq Member] (fewer : Fewer (bound + 1) holds) {leaver : Member}
    (member : holds leaver)
    (imp : ∀ member, later member → member ≠ leaver ∧ holds member) :
    Fewer bound later := by
  intro crowd inside
  have absent : leaver ∉ crowd := fun present => (imp leaver (inside leaver present)).1 rfl
  have larger : (insert leaver crowd).card < bound + 1 := by
    apply fewer
    intro other present
    rcases Finset.mem_insert.mp present with rfl | present
    · exact member
    · exact (imp other (inside other present)).2
  rw [Finset.card_insert_of_notMem absent] at larger
  omega

theorem exists_roll_of_not_fewer (many : ¬ Fewer bound holds) :
    ∃ roll : List Member, roll.Nodup ∧ (∀ member ∈ roll, holds member) ∧ bound ≤ roll.length := by
  simp only [Fewer, not_forall, not_lt] at many
  obtain ⟨crowd, inside, size⟩ := many
  exact ⟨crowd.toList, crowd.nodup_toList,
    fun member present => inside member (Finset.mem_toList.mp present), by simpa using size⟩

theorem fewer_iff_card [Fintype Member] [DecidablePred holds] :
    Fewer bound holds ↔ (Finset.univ.filter holds).card < bound := by
  constructor
  · intro fewer
    exact fewer _ (fun member present => (Finset.mem_filter.mp present).2)
  · intro count crowd inside
    have included : crowd ⊆ Finset.univ.filter holds := by
      intro member present
      exact Finset.mem_filter.mpr ⟨Finset.mem_univ member, inside member present⟩
    exact Nat.lt_of_le_of_lt (Finset.card_le_card included) count

instance decidableFewer [Fintype Member] [DecidablePred holds] : Decidable (Fewer bound holds) :=
  decidable_of_iff _ fewer_iff_card.symm

end Census
