import VoxelStream.Stream.Streamer

/-!
# Settling

A worker that changed something passes again at once, so under a view that stays it passes until
nothing changes. That comes to an end because each pass that changes something leaves less to
change (`pending_lt`): what it removed is gone, and of what there was to add only the failed nodes
are left.
-/

namespace VoxelStream

/-- A difference gets smaller when its removals and some of its additions are done. -/
theorem NodeDiff.size_between_diff_lt {previous current failed : NodeSet}
    (hf : ∀ n ∈ failed, n ∈ (between previous current).toAdd)
    (h : (∃ n ∈ (between previous current).toAdd, n ∉ failed) ∨
      (between previous current).toRemove ≠ []) :
    (between (current \ failed) current).size < (between previous current).size := by
  have hr : (between (current \ failed) current).toRemove = [] := by
    rw [List.eq_nil_iff_forall_not_mem]
    intro n hn
    rw [mem_toRemove, Std.ExtTreeSet.mem_diff_iff] at hn
    exact hn.2 hn.1.1
  have ha : (between (current \ failed) current).toAdd =
      (between previous current).toAdd.filter failed.contains := by
    simp only [between, List.filter_filter]
    refine List.filter_congr fun n hn => ?_
    have hc := Std.ExtTreeSet.mem_toList.1 hn
    have := hf n
    simp only [mem_toAdd] at this
    rw [Bool.eq_iff_iff]
    simp [← Bool.not_eq_true]
    grind
  rw [size, hr, ha, List.length_nil, Nat.add_zero, size]
  rcases h with ⟨n, hn, hnf⟩ | h
  · have := List.length_filter_lt_length_iff_exists.2
      ⟨n, hn, mt Std.ExtTreeSet.contains_iff_mem.1 hnf⟩
    omega
  · have := List.length_filter_le failed.contains (between previous current).toAdd
    have := List.length_pos_iff.2 h
    omega

/-- No node is added twice. -/
theorem NodeDiff.nodup_toAdd {previous current : NodeSet} :
    (between previous current).toAdd.Nodup :=
  .filter _ (Std.ExtTreeSet.distinct_toList.imp fun {_ _} h he =>
    h (Std.LawfulEqCmp.compare_eq_iff_eq.2 he))

namespace Streamer

variable {γ σ : Type} {G : Generator γ} {K : Sink σ}

/-- How many nodes come into view or leave it. -/
def pending (s : Streamer) (v : View) : Nat :=
  match s.inView v with
  | .ok nodes => (NodeDiff.between s.visible nodes).size
  | .error _ => 0

/-- A plan that changes something leaves less to change. -/
theorem pending_lt_of_plan {s s' : Streamer} {v : View} {g g' : γ} {removed added : List Chunk}
    (h : s.plan G v g = (.change s' removed added, g')) (hc : removed ≠ [] ∨ added ≠ []) :
    s'.pending v < s.pending v := by
  unfold plan at h
  cases hv : s.inView v with
  | error f => rw [hv] at h; grind
  | ok nodes =>
    rw [hv] at h
    dsimp only at h
    split at h
    · cases h
    · split at h
      · cases h
      · next r g₂ hr =>
        cases h
        have hv' : (s.countIteration.adopt nodes
            ((NodeDiff.between s.visible nodes).toRemove.filterMap r.cache.find?) r).inView v =
            .ok nodes := hv
        simp only [pending, hv, hv']
        refine NodeDiff.size_between_diff_lt (fun n hn => ?_) ?_
        · rcases Resolution.mem_of_mem_failed hr hn with hn | hn
          · simp at hn
          · exact hn
        · rcases hc with hc | hc
          · exact .inr fun he => hc (by rw [he]; rfl)
          · refine .inl (Resolution.exists_not_mem_failed hr NodeDiff.nodup_toAdd (by simp) ?_)
            rw [ne_eq, Array.toList_eq_nil_iff] at hc
            exact Array.size_pos_iff.2 hc

/-- A pass that changes something leaves less to change. -/
theorem pending_lt {s s' : Streamer} {v : View} {g g' : γ} {k k' : σ}
    (h : s.pass G K v g k = (some (s', true), g', k')) : s'.pending v < s.pending v := by
  unfold pass at h
  split at h
  · cases h
  · cases h
  · next s₁ removed added g₁ hp =>
    unfold publish at h
    dsimp only at h
    split at h
    · grind [cutShort]
    · split at h
      · grind [cutShort]
      · simp only [Prod.mk.injEq, Option.some.injEq] at h
        obtain ⟨⟨rfl, hc⟩, -⟩ := h
        have hlt : s₁.pending v < s.pending v := pending_lt_of_plan hp (by simpa using hc)
        exact hlt

/-- Passes under one view until one changes nothing. With the streamer, unless it is lost, come the
figures published last; each pass publishes its own. -/
def settle (G : Generator γ) (K : Sink σ) (s : Streamer) (v : View) (stats : StreamStats) (g : γ)
    (k : σ) : Option Streamer × StreamStats × γ × σ :=
  match _h : s.pass G K v g k with
  | (none, g, k) => (none, stats, g, k)
  | (some (s', false), g, k) => (some s', s'.stats, g, k)
  | (some (s', true), g, k) => settle G K s' v s'.stats g k
termination_by s.pending v
decreasing_by exact pending_lt _h

end Streamer
end VoxelStream
