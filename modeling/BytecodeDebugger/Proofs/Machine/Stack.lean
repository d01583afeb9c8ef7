import BytecodeDebugger.Machine.Stack
import BytecodeDebugger.Proofs.Result
import Mathlib.Tactic.SplitIfs

/-!
# Operations on the stack

How the operations on the stack fail, and what they do to the number of its words.

A stack with more words below its own (`Stack.above`) is one that the operations do the same to, as
none of them asks for more words than it takes.  Only the ones that put a word on top need room for
the words below as well.
-/

namespace BytecodeDebugger

namespace Stack

variable {s s' : Stack} {fault : Fault}

/-! ### How operations fail -/

theorem pop_eq_error_iff : s.pop = .error fault ↔ s.depth < 1 ∧ fault = s.underflow 1 := by
  obtain ⟨words⟩ := s
  cases words with
  | nil => simp [pop, depth, eq_comm]
  | cons word rest => simp [pop, depth]

theorem popPair_eq_error_iff :
    s.popPair = .error fault ↔ s.depth < 2 ∧ fault = s.underflow 2 := by
  obtain ⟨words⟩ := s
  rcases words with _ | ⟨first, _ | ⟨second, rest⟩⟩
  · simp [popPair, depth, eq_comm]
  · simp [popPair, depth, eq_comm]
  · have hdepth : ¬ rest.length + 1 + 1 < 2 := by omega
    simp [popPair, depth, hdepth]

theorem push_eq_error_iff {word : Word} :
    s.push word = .error fault ↔ limit ≤ s.depth ∧ fault = .stackOverflow limit := by
  rw [push]
  by_cases h : s.depth < limit
  · simp [h, Nat.not_le.mpr h]
  · simp [h, Nat.le_of_not_lt h, eq_comm]

theorem dup_eq_error_iff {below : Nat} : s.dup (below + 1) = .error fault ↔
    s.depth < below + 1 ∧ fault = s.underflow (below + 1) ∨
      below + 1 ≤ s.depth ∧ limit ≤ s.depth ∧ fault = .stackOverflow limit := by
  unfold dup
  by_cases h : below < s.depth
  · have hword : s.words[below]? = some s.words[below] := List.getElem?_eq_getElem h
    have hdepth : ¬ s.depth < below + 1 := by omega
    simp only [hword, push_eq_error_iff]
    simp [hdepth, Nat.succ_le_of_lt h]
  · have hword : s.words[below]? = none := List.getElem?_eq_none (Nat.le_of_not_lt h)
    have hdepth : s.depth < below + 1 := by omega
    simp [hword, hdepth, Nat.not_le.mpr hdepth, eq_comm]

theorem swap_eq_error_iff {below : Nat} (hbelow : below < maxPosition) :
    s.swap below = .error fault ↔ s.depth < below + 1 ∧ fault = s.underflow (below + 1) := by
  rw [swap, if_neg (Nat.not_le.mpr hbelow)]
  by_cases h : below < s.depth
  · have hpos : 0 < s.words.length := Nat.zero_lt_of_lt h
    have htop : s.words[0]? = some s.words[0] := List.getElem?_eq_getElem hpos
    have hother : s.words[below]? = some s.words[below] := List.getElem?_eq_getElem h
    have hdepth : ¬ s.depth < below + 1 := by omega
    simp [htop, hother, hdepth]
  · have hother : s.words[below]? = none := List.getElem?_eq_none (Nat.le_of_not_lt h)
    have hdepth : s.depth < below + 1 := by omega
    simp [hother, hdepth, eq_comm]

theorem pop_eq_error (h : s.pop = .error fault) : fault = s.underflow 1 :=
  (pop_eq_error_iff.mp h).2

theorem popPair_eq_error (h : s.popPair = .error fault) : fault = s.underflow 2 :=
  (popPair_eq_error_iff.mp h).2

theorem push_eq_error {word : Word} (h : s.push word = .error fault) :
    fault = .stackOverflow limit :=
  (push_eq_error_iff.mp h).2

theorem dup_eq_error {below : Nat} (h : s.dup (below + 1) = .error fault) :
    fault = s.underflow (below + 1) ∨ fault = .stackOverflow limit :=
  (dup_eq_error_iff.mp h).imp (·.2) (·.2.2)

theorem swap_eq_error {below : Nat} (hbelow : below < maxPosition)
    (h : s.swap below = .error fault) : fault = s.underflow (below + 1) :=
  ((swap_eq_error_iff hbelow).mp h).2

/-! ### The number of words -/

theorem depth_of_pop {word : Word} (h : s.pop = .ok (word, s')) : s.depth = s'.depth + 1 := by
  rw [pop] at h
  rw [depth, depth]
  rcases hwords : s.words with _ | ⟨word', rest⟩
  · rw [hwords] at h
    cases h
  · rw [hwords] at h
    obtain ⟨-, rfl⟩ := Prod.mk.inj (Except.ok.inj h)
    rfl

theorem depth_of_popPair {words : Word × Word} (h : s.popPair = .ok (words, s')) :
    s.depth = s'.depth + 2 := by
  rw [popPair] at h
  rw [depth, depth]
  rcases hwords : s.words with _ | ⟨first, _ | ⟨second, rest⟩⟩
  · rw [hwords] at h
    cases h
  · rw [hwords] at h
    cases h
  · rw [hwords] at h
    obtain ⟨-, rfl⟩ := Prod.mk.inj (Except.ok.inj h)
    rfl

theorem depth_of_push {word : Word} (h : s.push word = .ok s') :
    s.depth < limit ∧ s'.depth = s.depth + 1 := by
  rw [push] at h
  split_ifs at h with hdepth
  obtain rfl := Except.ok.inj h
  exact ⟨hdepth, rfl⟩

theorem depth_of_dup {below : Nat} (h : s.dup below = .ok s') :
    s.depth < limit ∧ s'.depth = s.depth + 1 := by
  cases below with
  | zero => cases h
  | succ below =>
    rw [dup] at h
    cases hword : s.words[below]? with
    | none =>
      rw [hword] at h
      cases h
    | some word =>
      rw [hword] at h
      exact depth_of_push h

theorem depth_of_swap {below : Nat} (h : s.swap below = .ok s') : s'.depth = s.depth := by
  rw [swap] at h
  split_ifs at h
  split at h
  · obtain rfl := Except.ok.inj h
    simp only [depth, List.length_set]
  · cases h

theorem depth_of_popMany {count : Nat} {words : List Word} (h : s.popMany count = .ok (words, s')) :
    s'.depth ≤ s.depth := by
  rw [popMany] at h
  split_ifs at h
  obtain ⟨-, rfl⟩ := Prod.mk.inj (Except.ok.inj h)
  simp only [depth, List.length_drop]
  omega

/-! ### More words below -/

/-- The stack with more words below its own. -/
def above (s : Stack) (below : List Word) : Stack :=
  ⟨s.words ++ below⟩

variable {below : List Word}

theorem depth_above (s : Stack) (below : List Word) :
    (s.above below).depth = s.depth + below.length :=
  List.length_append

/-- The words of a stack are found at the same depth. -/
theorem getElem?_above {index : Nat} {word : Word} (h : s.words[index]? = some word) :
    (s.above below).words[index]? = some word := by
  have hlt := (List.getElem?_eq_some_iff.mp h).1
  rw [above, List.getElem?_append_left hlt, h]

theorem pop_above {word : Word} (h : s.pop = .ok (word, s')) :
    (s.above below).pop = .ok (word, s'.above below) := by
  obtain ⟨words⟩ := s
  rcases words with _ | ⟨word', rest⟩
  · cases h
  · obtain ⟨rfl, rfl⟩ := Prod.mk.inj (Except.ok.inj h)
    rfl

theorem popPair_above {words : Word × Word} (h : s.popPair = .ok (words, s')) :
    (s.above below).popPair = .ok (words, s'.above below) := by
  obtain ⟨words'⟩ := s
  rcases words' with _ | ⟨first, _ | ⟨second, rest⟩⟩
  · cases h
  · cases h
  · obtain ⟨rfl, rfl⟩ := Prod.mk.inj (Except.ok.inj h)
    rfl

theorem push_above {word : Word} (h : s.push word = .ok s')
    (hroom : s'.depth + below.length ≤ limit) :
    (s.above below).push word = .ok (s'.above below) := by
  have hdepth := (depth_of_push h).2
  have hlimit : (s.above below).depth < limit := by
    rw [depth_above]
    omega
  rw [push] at h
  split_ifs at h
  obtain rfl := Except.ok.inj h
  rw [push, if_pos hlimit]
  rfl

theorem dup_above {index : Nat} (h : s.dup index = .ok s')
    (hroom : s'.depth + below.length ≤ limit) :
    (s.above below).dup index = .ok (s'.above below) := by
  cases index with
  | zero => cases h
  | succ index =>
    rw [dup] at h ⊢
    cases hword : s.words[index]? with
    | none =>
      rw [hword] at h
      cases h
    | some word =>
      rw [hword] at h
      rw [getElem?_above hword]
      exact push_above h hroom

theorem swap_above {index : Nat} (h : s.swap index = .ok s') :
    (s.above below).swap index = .ok (s'.above below) := by
  rw [swap] at h ⊢
  split_ifs at h with hindex
  rw [if_neg hindex]
  cases htop : s.words[0]? with
  | none =>
    rw [htop] at h
    cases h
  | some top =>
    cases hother : s.words[index]? with
    | none =>
      rw [htop, hother] at h
      cases h
    | some other =>
      rw [htop, hother] at h
      obtain rfl := Except.ok.inj h
      have htop' : 0 < s.words.length := (List.getElem?_eq_some_iff.mp htop).1
      have hother' : index < (s.words.set 0 other).length := by
        rw [List.length_set]
        exact (List.getElem?_eq_some_iff.mp hother).1
      rw [getElem?_above htop, getElem?_above hother]
      simp only [above, List.set_append_left _ _ htop', List.set_append_left _ _ hother']

end Stack

end BytecodeDebugger
