import Mathlib.Data.List.Nodup
import Mathlib.Data.List.Perm.Subperm
import Mathlib.Data.List.Range

/-!
A counter that goes up with every ticket it issues and down where the newest ticket is given back. The
tickets still outstanding carry distinct counts.
-/

namespace CultureNodes

/-- The tickets outstanding under a serial number and a count, each with the two it was issued with. -/
structure Outstanding (serial count : Nat) (tickets : List (Nat × Nat)) : Prop where
  serials : (tickets.map Prod.fst).Nodup
  issued : ∀ ticket ∈ tickets, ticket.1 ≤ serial ∧ 0 < ticket.2 ∧ ticket.2 ≤ count
  ordered : ∀ older ∈ tickets, ∀ newer ∈ tickets, older.1 < newer.1 → older.2 < newer.2

namespace Outstanding

variable {serial count : Nat} {ticket : Nat × Nat} {tickets fewer : List (Nat × Nat)}

theorem nil : Outstanding serial count [] where
  serials := List.nodup_nil
  issued := fun _ member => absurd member List.not_mem_nil
  ordered := fun _ member => absurd member List.not_mem_nil

theorem of_sublist (outstanding : Outstanding serial count tickets) (sublist : fewer.Sublist tickets) :
    Outstanding serial count fewer where
  serials := outstanding.serials.sublist (sublist.map _)
  issued := fun ticket member => outstanding.issued ticket (sublist.subset member)
  ordered := fun older isOlder newer isNewer =>
    outstanding.ordered older (sublist.subset isOlder) newer (sublist.subset isNewer)

theorem perm (outstanding : Outstanding serial count tickets) (permuted : tickets.Perm fewer) :
    Outstanding serial count fewer where
  serials := (permuted.map _).nodup_iff.mp outstanding.serials
  issued := fun ticket member => outstanding.issued ticket (permuted.mem_iff.mpr member)
  ordered := fun older isOlder newer isNewer =>
    outstanding.ordered older (permuted.mem_iff.mpr isOlder) newer (permuted.mem_iff.mpr isNewer)

/-- A new ticket carries the next serial number and the next count. -/
theorem issue (outstanding : Outstanding serial count tickets) :
    Outstanding (serial + 1) (count + 1) ((serial + 1, count + 1) :: tickets) where
  serials := by
    refine List.nodup_cons.mpr ⟨fun member => ?_, outstanding.serials⟩
    obtain ⟨ticket, isTicket, same⟩ := List.mem_map.mp member
    have known := (outstanding.issued ticket isTicket).1
    omega
  issued := by
    intro ticket member
    rcases List.mem_cons.mp member with rfl | old
    · exact ⟨Nat.le_refl _, Nat.succ_pos _, Nat.le_refl _⟩
    · have known := outstanding.issued ticket old
      omega
  ordered := by
    intro older isOlder newer isNewer earlier
    rcases List.mem_cons.mp isOlder with rfl | oldOlder
    · rcases List.mem_cons.mp isNewer with rfl | oldNewer
      · exact absurd earlier (Nat.lt_irrefl _)
      · have known := (outstanding.issued newer oldNewer).1
        omega
    · rcases List.mem_cons.mp isNewer with rfl | oldNewer
      · exact Nat.lt_succ_of_le (outstanding.issued older oldOlder).2.2
      · exact outstanding.ordered older oldOlder newer oldNewer earlier

theorem giveBack (outstanding : Outstanding serial count ((serial, count) :: tickets)) :
    Outstanding serial (count - 1) tickets := by
  have rest := outstanding.of_sublist (List.sublist_cons_self _ _)
  refine { rest with issued := fun ticket member => ?_ }
  have known := rest.issued ticket member
  have other : serial ∉ tickets.map Prod.fst := (List.nodup_cons.mp outstanding.serials).1
  have distinct : ticket.1 ≠ serial := fun same => other (same ▸ List.mem_map_of_mem member)
  have below := outstanding.ordered ticket (List.mem_cons_of_mem _ member) (serial, count)
    List.mem_cons_self (Nat.lt_of_le_of_ne known.1 distinct)
  exact ⟨known.1, known.2.1, Nat.le_sub_one_of_lt below⟩

theorem counts_nodup (outstanding : Outstanding serial count tickets) :
    (tickets.map Prod.snd).Nodup := by
  refine outstanding.serials.of_map.map_on ?_
  intro one isOne other isOther same
  refine List.inj_on_of_nodup_map outstanding.serials isOne isOther ?_
  rcases Nat.lt_trichotomy one.1 other.1 with earlier | equal | later
  · exact absurd same (outstanding.ordered one isOne other isOther earlier).ne
  · exact equal
  · exact absurd same (outstanding.ordered other isOther one isOne later).ne'

theorem length_le {limit : Nat} (outstanding : Outstanding serial count tickets)
    (within : ∀ ticket ∈ tickets, ticket.2 ≤ limit) : tickets.length ≤ limit := by
  have ranged : tickets.map Prod.snd ⊆ List.range' 1 limit := by
    intro value member
    obtain ⟨ticket, isTicket, rfl⟩ := List.mem_map.mp member
    have positive := (outstanding.issued ticket isTicket).2.1
    have bounded := within ticket isTicket
    rw [List.mem_range'_1]
    omega
  calc tickets.length
      = (tickets.map Prod.snd).length := (List.length_map _).symm
    _ ≤ (List.range' 1 limit).length :=
        (List.subperm_of_subset outstanding.counts_nodup ranged).length_le
    _ = limit := List.length_range'

end Outstanding

end CultureNodes
