import BytecodeDebugger.Text.Backspace

/-!
# Lines without backspaces

The clusters of a text, one after another, are the text (`flatten_clusters`).  So a line in which
nothing erases anything is left as it was typed (`erase?_of_not_mem`).
-/

namespace BytecodeDebugger.Text

theorem flatten_clusters_go (cluster : List Char) (before : ClusterClass) (tie : Tie)
    (cs : List Char) :
    (clusters.go cluster before tie cs).flatten = cluster.reverse ++ cs := by
  induction cs generalizing cluster before tie with
  | nil => simp [clusters.go]
  | cons c cs ih =>
    rw [clusters.go]
    split
    · rw [ih, List.reverse_cons, List.append_assoc, List.singleton_append]
    · rw [List.flatten_cons, ih, List.reverse_singleton, List.singleton_append]

/-- The clusters of a text make up the text. -/
theorem flatten_clusters (cs : List Char) : (clusters cs).flatten = cs := by
  cases cs with
  | nil => rfl
  | cons c cs => rw [clusters, flatten_clusters_go, List.reverse_singleton, List.singleton_append]

/-- Clusters that are no backspaces are typed one after another. -/
theorem foldlM_type? (t : Typing) {cs : List (List Char)} (h : [Typing.backspace] ∉ cs) :
    ∃ sizes, cs.foldlM Typing.type? t = some ⟨cs.flatten.reverse ++ t.text, sizes⟩ := by
  induction cs generalizing t with
  | nil => exact ⟨t.sizes, rfl⟩
  | cons cluster cs ih =>
    rw [List.mem_cons, not_or] at h
    obtain ⟨hcluster, hcs⟩ := h
    have htype : t.type? cluster =
        some ⟨cluster.reverse ++ t.text, byteCount cluster % 256 :: t.sizes⟩ := by
      rw [Typing.type?, if_neg (Ne.symm hcluster)]
    obtain ⟨sizes, hsizes⟩ := ih ⟨cluster.reverse ++ t.text, byteCount cluster % 256 :: t.sizes⟩ hcs
    refine ⟨sizes, ?_⟩
    rw [List.foldlM_cons, htype]
    rw [List.flatten_cons, List.reverse_append, List.append_assoc]
    exact hsizes

/-- A line without backspaces is left as it was typed. -/
theorem erase?_of_not_mem {s : String} (h : Typing.backspace ∉ s.toList) : erase? s = some s := by
  have hclusters : [Typing.backspace] ∉ clusters s.toList := by
    intro hmem
    have : Typing.backspace ∈ (clusters s.toList).flatten :=
      List.mem_flatten.mpr ⟨_, hmem, List.mem_singleton_self _⟩
    rw [flatten_clusters] at this
    exact h this
  obtain ⟨sizes, hsizes⟩ := foldlM_type? {} hclusters
  rw [erase?, hsizes, flatten_clusters]
  simp

end BytecodeDebugger.Text
