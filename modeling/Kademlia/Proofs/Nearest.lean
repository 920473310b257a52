import Kademlia.Proofs.Metric
import Mathlib.Data.List.Dedup
import Mathlib.Data.List.Nodup
import Mathlib.Data.List.Perm.Subperm

/-!
# Kademlia.Proofs.Nearest

What it means to keep the closest of the ids that were offered, and how that
is kept up one offer at a time.  Both the selection of a routing table and the
bounded session of a lookup keep the nearest ids in this sense; only the order
in which they hold them differs, and `Nearest.perm` says that it does not matter.
-/

namespace Kademlia

/-- `kept` holds the `k` ids closest to `key` among those in `offered`, or all
of them if there are fewer: whatever was left out is farther than all that is
kept, and was left out for want of space. -/
structure Nearest (key : Id) (k : Nat) (offered kept : List Id) : Prop where
  length_eq : ∀ a ∈ offered, a.length = key.length
  nodup : kept.Nodup
  subset : kept ⊆ offered
  length_le : kept.length ≤ k
  left_out : ∀ a ∈ offered, a ∉ kept → kept.length = k ∧ ∀ b ∈ kept, key.gap b < key.gap a

/-- Those of several ids that are closer to the key than `a`, each of them once. -/
def Id.closerThan (key a : Id) (ids : List Id) : List Id :=
  ids.dedup.filter fun b => key.gap b < key.gap a

namespace Nearest

variable {key a f : Id} {k : Nat} {offered kept : List Id}

/-- Nothing was offered yet. -/
theorem nil (key : Id) (k : Nat) : Nearest key k [] [] where
  length_eq := by simp
  nodup := List.nodup_nil
  subset := List.Subset.refl _
  length_le := Nat.zero_le k
  left_out := by simp

/-- The order of the kept ids does not matter. -/
theorem perm (h : Nearest key k offered kept) {kept' : List Id} (hp : kept.Perm kept') :
    Nearest key k offered kept' where
  length_eq := h.length_eq
  nodup := hp.nodup_iff.mp h.nodup
  subset := fun b hb => h.subset (hp.mem_iff.mpr hb)
  length_le := by rw [← hp.length_eq]; exact h.length_le
  left_out := by
    intro b hb hbk
    obtain ⟨hlen, hlt⟩ := h.left_out b hb (fun hk => hbk (hp.mem_iff.mp hk))
    rw [← hp.length_eq]
    exact ⟨hlen, fun c hc => hlt c (hp.mem_iff.mpr hc)⟩

/-- Only which ids were offered matters, not how often or in what order. -/
theorem congr (h : Nearest key k offered kept) {offered' : List Id}
    (ho : ∀ b, b ∈ offered' ↔ b ∈ offered) : Nearest key k offered' kept where
  length_eq := fun b hb => h.length_eq b ((ho b).mp hb)
  nodup := h.nodup
  subset := fun b hb => (ho b).mpr (h.subset hb)
  length_le := h.length_le
  left_out := fun b hb hbk => h.left_out b ((ho b).mp hb) hbk

/-! ## One more offer -/

/-- An id that was offered before changes nothing. -/
theorem again (h : Nearest key k offered kept) (ha : a ∈ offered) :
    Nearest key k (a :: offered) kept := by
  refine h.congr fun b => ?_
  rw [List.mem_cons]
  constructor
  · rintro (rfl | hb)
    · exact ha
    · exact hb
  · exact Or.inr

/-- While there is space, a new id is kept beside the others. -/
theorem add (h : Nearest key k offered kept) (hl : a.length = key.length)
    (ha : a ∉ kept) (hk : kept.length < k) : Nearest key k (a :: offered) (a :: kept) where
  length_eq := by
    intro b hb
    rcases List.mem_cons.mp hb with rfl | hb
    · exact hl
    · exact h.length_eq b hb
  nodup := List.nodup_cons.mpr ⟨ha, h.nodup⟩
  subset := List.cons_subset_cons a h.subset
  length_le := by rw [List.length_cons]; omega
  left_out := by
    intro b hb hbk
    rw [List.mem_cons, not_or] at hbk
    have hbo : b ∈ offered := (List.mem_cons.mp hb).resolve_left hbk.1
    have hlen := (h.left_out b hbo hbk.2).1
    omega

/-- Without space, an id that is no closer than the farthest is left out. -/
theorem reject (h : Nearest key k offered kept) (hl : a.length = key.length) (hk : kept.length = k)
    (hfar : ∀ b ∈ kept, b ≠ a → key.gap b ≤ key.gap a) : Nearest key k (a :: offered) kept where
  length_eq := by
    intro b hb
    rcases List.mem_cons.mp hb with rfl | hb
    · exact hl
    · exact h.length_eq b hb
  nodup := h.nodup
  subset := List.subset_cons_of_subset a h.subset
  length_le := h.length_le
  left_out := by
    intro b hb hbk
    rcases List.mem_cons.mp hb with rfl | hb
    · refine ⟨hk, fun c hc => ?_⟩
      have hcb : c ≠ b := fun hcb => hbk (hcb ▸ hc)
      -- Two ids are never equally far, so "not farther" means "closer".
      have hne : key.gap c ≠ key.gap b := fun hg =>
        hcb (Id.eq_of_gap_eq (h.length_eq c (h.subset hc)) hl hg)
      have hle := hfar c hc hcb
      omega
    · exact h.left_out b hb hbk

/-- Without space, an id that is closer than the farthest takes its place. -/
theorem replace (h : Nearest key k offered kept) (hl : a.length = key.length) (ha : a ∉ kept)
    (hk : kept.length = k) (hf : f ∈ kept) (hfar : ∀ b ∈ kept, key.gap b ≤ key.gap f)
    (haf : key.gap a < key.gap f) : Nearest key k (a :: offered) (a :: kept.erase f) where
  length_eq := by
    intro b hb
    rcases List.mem_cons.mp hb with rfl | hb
    · exact hl
    · exact h.length_eq b hb
  nodup := List.nodup_cons.mpr ⟨fun hmem => ha (List.mem_of_mem_erase hmem), h.nodup.erase f⟩
  subset := List.cons_subset_cons a fun b hb => h.subset (List.mem_of_mem_erase hb)
  length_le := by
    have hpos := List.length_pos_of_mem hf
    rw [List.length_cons, List.length_erase_of_mem hf]
    omega
  left_out := by
    have hpos := List.length_pos_of_mem hf
    have hlen : (a :: kept.erase f).length = k := by
      rw [List.length_cons, List.length_erase_of_mem hf]
      omega
    intro b hb hbk
    rw [List.mem_cons, not_or] at hbk
    have hbo : b ∈ offered := (List.mem_cons.mp hb).resolve_left hbk.1
    refine ⟨hlen, fun c hc => ?_⟩
    -- Whoever is left out now is the farthest, or was farther than it before.
    have hfb : key.gap f ≤ key.gap b := by
      by_cases hbf : b = f
      · rw [hbf]
      · have hbk' : b ∉ kept := fun hmem => hbk.2 ((List.mem_erase_of_ne hbf).mpr hmem)
        exact Nat.le_of_lt ((h.left_out b hbo hbk').2 f hf)
    rcases List.mem_cons.mp hc with rfl | hc
    · omega
    · obtain ⟨hcf, hck⟩ := h.nodup.mem_erase_iff.mp hc
      have hne : key.gap c ≠ key.gap f := fun hg =>
        hcf (Id.eq_of_gap_eq (h.length_eq c (h.subset hck)) (h.length_eq f (h.subset hf)) hg)
      have hle := hfar c hck
      omega

/-! ## What is kept -/

/-- With space for everybody who could be offered, everybody is kept. -/
theorem mem_of_length_le {all : List Id} (h : Nearest key k offered kept) (hsub : offered ⊆ all)
    (hk : all.length ≤ k) (ha : a ∈ offered) : a ∈ kept := by
  by_contra hak
  have hlen := (h.left_out a ha hak).1
  have hin : (a :: kept) ⊆ all := List.cons_subset.mpr ⟨hsub ha, fun b hb => hsub (h.subset hb)⟩
  have hle := ((List.nodup_cons.mpr ⟨hak, h.nodup⟩).subperm hin).length_le
  rw [List.length_cons] at hle
  omega

/-- Somebody is kept, if anything is offered. -/
theorem kept_ne_nil (h : Nearest key k offered kept) (hk : 0 < k) (ha : a ∈ offered) :
    kept ≠ [] := by
  rintro rfl
  have hlen := (h.left_out a ha List.not_mem_nil).1
  rw [List.length_nil] at hlen
  omega

/-- **What is kept are those that fewer than `k` others are closer than.** -/
theorem mem_iff (h : Nearest key k offered kept) (ha : a ∈ offered) :
    a ∈ kept ↔ (key.closerThan a offered).length < k := by
  have hcloser : ∀ b, b ∈ key.closerThan a offered ↔ b ∈ offered ∧ key.gap b < key.gap a := by
    simp [Id.closerThan]
  constructor
  · intro hak
    -- Whoever is closer is kept as well, or `a` would not be.
    have hsub : key.closerThan a offered ⊆ kept.erase a := by
      intro b hb
      obtain ⟨hbo, hlt⟩ := (hcloser b).mp hb
      have hbk : b ∈ kept := by
        by_contra hbk
        have hgt := (h.left_out b hbo hbk).2 a hak
        omega
      exact (List.mem_erase_of_ne (fun heq => by simp [heq] at hlt)).mpr hbk
    have hle := ((List.nodup_dedup offered).filter _ |>.subperm hsub).length_le
    have hpos := List.length_pos_of_mem hak
    have hk := h.length_le
    rw [List.length_erase_of_mem hak] at hle
    exact Nat.lt_of_le_of_lt hle (by omega)
  · intro hlt
    by_contra hak
    obtain ⟨hlen, hall⟩ := h.left_out a ha hak
    have hsub : kept ⊆ key.closerThan a offered := fun b hb =>
      (hcloser b).mpr ⟨h.subset hb, hall b hb⟩
    have hle := (h.nodup.subperm hsub).length_le
    omega

/-- The closest of all is kept, if anything is. -/
theorem mem_of_closest (h : Nearest key k offered kept) (hk : 0 < k) (ha : a ∈ offered)
    (hmin : ∀ b ∈ offered, key.gap a ≤ key.gap b) : a ∈ kept := by
  by_contra hak
  obtain ⟨hlen, hlt⟩ := h.left_out a ha hak
  obtain ⟨b, hb⟩ := List.exists_mem_of_length_pos (hlen ▸ hk)
  have hba := hlt b hb
  have hab := hmin b (h.subset hb)
  omega

/-- As many ids are kept as there are, but no more than `k`. -/
theorem length_kept (h : Nearest key k offered kept) (hn : offered.Nodup) :
    kept.length = min k offered.length := by
  have hle := (h.nodup.subperm h.subset).length_le
  have hk := h.length_le
  by_cases hall : offered ⊆ kept
  · have hge := (hn.subperm hall).length_le
    omega
  · obtain ⟨a, ha, hak⟩ : ∃ a ∈ offered, a ∉ kept := by
      simpa [List.subset_def] using hall
    have hlen := (h.left_out a ha hak).1
    omega

/-- It does not matter how often they were offered. -/
theorem length_eq_min (h : Nearest key k offered kept) :
    kept.length = min k offered.dedup.length :=
  (h.congr fun _ => List.mem_dedup).length_kept (List.nodup_dedup offered)

/-- **The nearest of the nearest are the nearest of all**: to keep the `k`
nearest of some ids and of the `m` nearest of `all` is to keep the `k` nearest
of the former and of `all`, as long as `k` is not larger than `m`. -/
theorem trans {m : Nat} {own all mid : List Id} (h : Nearest key k (own ++ mid) kept)
    (hm : Nearest key m all mid) (hkm : k ≤ m) : Nearest key k (own ++ all) kept where
  length_eq := by
    intro a ha
    rcases List.mem_append.mp ha with ha | ha
    · exact h.length_eq a (List.mem_append_left _ ha)
    · exact hm.length_eq a ha
  nodup := h.nodup
  subset := by
    intro a ha
    rcases List.mem_append.mp (h.subset ha) with ha | ha
    · exact List.mem_append_left _ ha
    · exact List.mem_append_right _ (hm.subset ha)
  length_le := h.length_le
  left_out := by
    intro a ha hak
    by_cases hmem : a ∈ own ++ mid
    · exact h.left_out a hmem hak
    · rw [List.mem_append, not_or] at hmem
      have haall : a ∈ all := (List.mem_append.mp ha).resolve_left hmem.1
      obtain ⟨hlen, hlt⟩ := hm.left_out a haall hmem.2
      by_cases hsub : mid ⊆ kept
      · -- All `m` of them are kept, so there is nothing else among the kept ids.
        have hsp := hm.nodup.subperm hsub
        have hle := h.length_le
        have hge := hsp.length_le
        have hp := hsp.perm_of_length_le (by omega)
        exact ⟨by omega, fun b hb => hlt b (hp.mem_iff.mpr hb)⟩
      · -- One of them is left out, and it is closer than `a`.
        obtain ⟨c, hc, hck⟩ : ∃ c ∈ mid, c ∉ kept := by
          simpa [List.subset_def] using hsub
        obtain ⟨hkl, hkc⟩ := h.left_out c (List.mem_append_right _ hc) hck
        exact ⟨hkl, fun b hb => Nat.lt_trans (hkc b hb) (hlt c hc)⟩

end Nearest
end Kademlia
