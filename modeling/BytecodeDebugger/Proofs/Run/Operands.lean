import BytecodeDebugger.Proofs.Machine.Checked
import BytecodeDebugger.Proofs.Run.Limits

/-!
# Operations on the operands

What the operations on the stack do to the words from the bottom up: one is put on top
(`Stack.push_ofBottom`), the last ones are taken (`Stack.popMany_ofBottom`), one is copied
(`Stack.dup_ofBottom`), or two are exchanged (`Stack.swap_ofBottom`).

With numbers of 64 bits all of this goes the same way, also for the exchange that reaches as far as
such a number can, which has to count one word more and cannot (`Checked.swap_eq_of_le`).
`Frame.operands_exact` puts this together for the machines of all frames that can be reached.
-/

namespace BytecodeDebugger

/-! ### Exchanges -/

/-- Two words are exchanged, and the others stay. -/
structure Exchanged (i j : Nat) (words words' : List Word) : Prop where
  length_eq : words'.length = words.length
  left_eq : words'[i]? = words[j]?
  right_eq : words'[j]? = words[i]?
  others_eq : ∀ k, k ≠ i → k ≠ j → words'[k]? = words[k]?

namespace Exchanged

variable {words words' words'' : List Word} {i j : Nat}

theorem of_set (hi : i < words.length) (hj : j < words.length) :
    Exchanged i j words ((words.set i words[j]).set j words[i]) := by
  constructor
  · rw [List.length_set, List.length_set]
  · by_cases hij : j = i
    · simp [hij, hi]
    · rw [List.getElem?_set_ne hij, List.getElem?_set_self hi, List.getElem?_eq_getElem hj]
  · rw [List.getElem?_set_self (by rwa [List.length_set]), List.getElem?_eq_getElem hi]
  · intro k hki hkj
    rw [List.getElem?_set_ne hkj.symm, List.getElem?_set_ne hki.symm]

/-- What is exchanged twice is as it was. -/
theorem cancel (h : Exchanged i j words words') (h' : Exchanged i j words' words'') :
    words'' = words := by
  refine List.ext_getElem? fun k => ?_
  by_cases hi : k = i
  · rw [hi, h'.left_eq, h.right_eq]
  by_cases hj : k = j
  · rw [hj, h'.right_eq, h.left_eq]
  · rw [h'.others_eq k hi hj, h.others_eq k hi hj]

/-- Words that are exchanged are exchanged in the other order as well, where they stand there. -/
theorem reverse (h : Exchanged i j words words') (hi : i < words.length) (hj : j < words.length) :
    Exchanged (words.length - 1 - i) (words.length - 1 - j) words.reverse words'.reverse := by
  have hlength := h.length_eq
  have hback {k : Nat} (hk : k < words.length) :
      words.length - 1 - (words.length - 1 - k) = k := by omega
  have hword (l : List Word) (hl : l.length = words.length) {k : Nat} (hk : k < words.length) :
      l.reverse[k]? = l[words.length - 1 - k]? := by
    rw [List.getElem?_reverse (by omega), hl]
  constructor
  · rw [List.length_reverse, List.length_reverse, hlength]
  · rw [hword words' hlength (by omega), hword words rfl (by omega), hback hi, hback hj, h.left_eq]
  · rw [hword words' hlength (by omega), hword words rfl (by omega), hback hi, hback hj, h.right_eq]
  · intro k hki hkj
    by_cases hk : k < words.length
    · rw [hword words' hlength hk, hword words rfl hk, h.others_eq _ (by omega) (by omega)]
    · rw [List.getElem?_eq_none (by rw [List.length_reverse]; omega),
        List.getElem?_eq_none (by rw [List.length_reverse]; omega)]

end Exchanged

/-! ### The words from the bottom up -/

namespace Stack

/-- The stack with the given words from the bottom up. -/
def ofBottom (words : List Word) : Stack :=
  ⟨words.reverse⟩

theorem ofBottom_fromBottom (s : Stack) : ofBottom s.fromBottom = s :=
  congrArg Stack.mk s.words.reverse_reverse

theorem depth_ofBottom (words : List Word) : (ofBottom words).depth = words.length :=
  words.length_reverse

theorem push_ofBottom (words : List Word) (word : Word) :
    (ofBottom words).push word =
      if words.length < limit then .ok (ofBottom (words ++ [word]))
      else .error (.stackOverflow limit) := by
  rw [push, depth_ofBottom, ofBottom, ofBottom, List.reverse_concat]

theorem popMany_ofBottom (words : List Word) (count : Nat) :
    (ofBottom words).popMany count =
      if count ≤ words.length then
        .ok (words.reverse.take count, ofBottom (words.take (words.length - count)))
      else .error (.stackUnderflow count words.length) := by
  rw [popMany, underflow, depth_ofBottom, ofBottom, ofBottom, List.drop_reverse]

theorem dup_ofBottom (words : List Word) {depth : Nat} (hdepth : 1 ≤ depth) :
    (ofBottom words).dup depth =
      if h : depth ≤ words.length then (ofBottom words).push words[words.length - depth]
      else .error (.stackUnderflow depth words.length) := by
  obtain ⟨below, rfl⟩ := Nat.exists_eq_add_of_le' hdepth
  rw [dup, underflow, depth_ofBottom]
  split_ifs with h
  · have hindex : words.length - 1 - below = words.length - (below + 1) := by omega
    have hword : (ofBottom words).words[below]? = some words[words.length - (below + 1)] := by
      rw [ofBottom, List.getElem?_reverse h, hindex, List.getElem?_eq_getElem (by omega)]
    rw [hword]
  · have hword : (ofBottom words).words[below]? = none := by
      refine List.getElem?_eq_none ?_
      rw [ofBottom, List.length_reverse]
      omega
    rw [hword]

theorem swap_ofBottom {words : List Word} {below : Nat} (hmax : below < maxPosition)
    (h : below < words.length) :
    ∃ words', (ofBottom words).swap below = .ok (ofBottom words') ∧
      Exchanged (words.length - 1) (words.length - 1 - below) words words' := by
  have htop : 0 < words.reverse.length := by rw [List.length_reverse]; omega
  have hother : below < words.reverse.length := by rwa [List.length_reverse]
  have hexchanged := (Exchanged.of_set htop hother).reverse htop hother
  rw [List.reverse_reverse, List.length_reverse] at hexchanged
  refine ⟨_, ?_, hexchanged⟩
  rw [swap, if_neg (Nat.not_le.mpr hmax), ofBottom, List.getElem?_eq_getElem htop,
    List.getElem?_eq_getElem hother, ofBottom, List.reverse_reverse]

end Stack

namespace Checked

/-- The exchange that reaches farthest would need more words than can be counted. -/
theorem swap_eq_of_le (s : Stack) {below : Nat} (h : below ≤ maxPosition) :
    swap s below = s.swap below := by
  obtain hlt | rfl := Nat.lt_or_eq_of_le h
  · exact swap_eq hlt
  · rw [swap, Stack.swap, if_pos le_rfl, add, if_neg (Nat.not_succ_le_self _)]
    rfl

end Checked

/-! ### The operations of a machine -/

namespace Machine

/-- The machine with another stack, or as it is if there is none. -/
def withStack (m : Machine) : Except Fault Stack → Except Fault Unit × Machine
  | .ok stack => (.ok (), { m with stack })
  | .error fault => (.error fault, m)

theorem run_onStack_map (m : Machine) (f : Stack → Except Fault Stack) :
    (Action.onStack fun s => (f s).map ((), ·)).run m = m.withStack (f m.stack) := by
  rw [Action.run_onStack]
  cases f m.stack <;> rfl

theorem run_push (m : Machine) (word : Word) :
    (Operation.push word).action.run m = m.withStack (m.stack.push word) :=
  m.run_onStack_map (·.push word)

theorem run_dup (m : Machine) (depth : Nat) :
    (Operation.dup depth).action.run m = m.withStack (m.stack.dup depth) :=
  m.run_onStack_map (·.dup depth)

theorem run_swap (m : Machine) (below : Nat) :
    (Operation.swap below).action.run m = m.withStack (m.stack.swap below) :=
  m.run_onStack_map (·.swap below)

variable {m : Machine} {words : List Word}

theorem run_push_of_words (hwords : m.stack = .ofBottom words) (word : Word) :
    (Operation.push word).action.run m =
      if words.length < Stack.limit then (.ok (), { m with stack := .ofBottom (words ++ [word]) })
      else (.error (.stackOverflow Stack.limit), m) := by
  rw [run_push, hwords, Stack.push_ofBottom]
  split_ifs <;> rfl

theorem run_popMany_of_words (hwords : m.stack = .ofBottom words) (count : Nat) :
    (Action.onStack (·.popMany count)).run m =
      if count ≤ words.length then
        (.ok (words.reverse.take count),
          { m with stack := .ofBottom (words.take (words.length - count)) })
      else (.error (.stackUnderflow count words.length), m) := by
  rw [Action.run_onStack, hwords, Stack.popMany_ofBottom]
  split_ifs <;> rfl

/-- A copy of a word is put on top as that word is. -/
theorem run_dup_of_words (hwords : m.stack = .ofBottom words) {depth : Nat} (hdepth : 1 ≤ depth) :
    (Operation.dup depth).action.run m =
      if h : depth ≤ words.length then
        (Operation.push words[words.length - depth]).action.run m
      else (.error (.stackUnderflow depth words.length), m) := by
  rw [run_dup, hwords, Stack.dup_ofBottom words hdepth]
  split_ifs
  · rw [run_push, hwords]
  · rfl

/-- An exchange that is done again undoes itself. -/
theorem run_swap_of_words (hwords : m.stack = .ofBottom words) {below : Nat}
    (hmax : below < maxPosition) (h : below < words.length) :
    ∃ words', Exchanged (words.length - 1) (words.length - 1 - below) words words' ∧
      (Operation.swap below).action.run m = (.ok (), { m with stack := .ofBottom words' }) ∧
      (Operation.swap below).action.run { m with stack := .ofBottom words' } = (.ok (), m) := by
  obtain ⟨words', hswap, hexchanged⟩ := Stack.swap_ofBottom hmax h
  have hlength := hexchanged.length_eq
  obtain ⟨words'', hback, hexchanged'⟩ := Stack.swap_ofBottom hmax (hlength ▸ h)
  rw [hlength] at hexchanged'
  obtain rfl := hexchanged.cancel hexchanged'
  rw [← hwords] at hswap hback
  exact ⟨words', hexchanged, by rw [run_swap, hswap]; rfl, by rw [run_swap, hback]; rfl⟩

end Machine

/-- **What the operations on the stack do**, with the words from the bottom up, for all frames that
can be reached.  There are at most 1024 words.  A word is put on top if there are fewer.  The last
`count` words are taken if there are so many, and are returned the last one first.  The word at a
depth is copied if there are so many words and there is room for one more; the depth is looked at
before the room.  The top word and the one `below` places under it are exchanged if there is one,
which done again undoes itself.  In all other cases the operation fails and leaves the machine as it
was.

No computation of an index is out of range, with one exception: where the word to be exchanged is as
many places down as can be counted, the number of words that this takes is none of 64 bits. -/
theorem Frame.operands_exact {f : Frame} (hf : f.Reached) :
    let m := f.machine
    let words := m.stack.fromBottom
    words.length ≤ 1024 ∧
    (∀ word, (Machine.Operation.push word).action.run m =
      if words.length < 1024 then (.ok (), { m with stack := .ofBottom (words ++ [word]) })
      else (.error (.stackOverflow 1024), m)) ∧
    (∀ count, (Action.onStack (·.popMany count)).run m =
      if count ≤ words.length then
        (.ok (words.reverse.take count),
          { m with stack := .ofBottom (words.take (words.length - count)) })
      else (.error (.stackUnderflow count words.length), m)) ∧
    (∀ depth (_ : 1 ≤ depth), (Machine.Operation.dup depth).action.run m =
      if h : depth ≤ words.length then
        if words.length < 1024 then
          (.ok (), { m with stack := .ofBottom (words ++ [words[words.length - depth]]) })
        else (.error (.stackOverflow 1024), m)
      else (.error (.stackUnderflow depth words.length), m)) ∧
    (∀ below < maxPosition,
      (below < words.length → ∃ words',
        Exchanged (words.length - 1) (words.length - 1 - below) words words' ∧
        (Machine.Operation.swap below).action.run m =
          (.ok (), { m with stack := .ofBottom words' }) ∧
        (Machine.Operation.swap below).action.run { m with stack := .ofBottom words' } =
          (.ok (), m)) ∧
      (words.length ≤ below → (Machine.Operation.swap below).action.run m =
        (.error (.stackUnderflow (below + 1) words.length), m))) ∧
    (Machine.Operation.swap maxPosition).action.run m = (.error .outOfRange, m) ∧
    (∀ count, Checked.popMany m.stack count = m.stack.popMany count) ∧
    (∀ depth, 1 ≤ depth → Checked.dup m.stack depth = m.stack.dup depth) ∧
    ∀ below ≤ maxPosition, Checked.swap m.stack below = m.stack.swap below := by
  intro m words
  have hwords : m.stack = .ofBottom words := m.stack.ofBottom_fromBottom.symm
  have hlength : words.length = m.stack.depth := m.stack.words.length_reverse
  refine ⟨hlength ▸ hf.withinLimits.depth_le, Machine.run_push_of_words hwords,
    Machine.run_popMany_of_words hwords, fun depth hdepth => ?_, fun below hmax => ⟨?_, ?_⟩, ?_,
    Checked.popMany_eq m.stack, fun depth hdepth => ?_, fun below => Checked.swap_eq_of_le m.stack⟩
  · rw [Machine.run_dup_of_words hwords hdepth]
    split_ifs with h hroom
    · rw [Machine.run_push_of_words hwords]
      exact if_pos hroom
    · rw [Machine.run_push_of_words hwords]
      exact if_neg hroom
    · rfl
  · exact Machine.run_swap_of_words hwords hmax
  · intro hbelow
    have hdepth : m.stack.depth < below + 1 := Nat.lt_succ_of_le (hlength ▸ hbelow)
    have hunderflow := (Stack.swap_eq_error_iff hmax).mpr ⟨hdepth, rfl⟩
    rw [Machine.run_swap, hunderflow, Stack.underflow, ← hlength]
    rfl
  · rw [Machine.run_swap, Stack.swap, if_pos le_rfl]
    rfl
  · obtain ⟨below, rfl⟩ := Nat.exists_eq_add_of_le' hdepth
    exact Checked.dup_eq m.stack below

/-- A frame with the words seven and eight on its stack. -/
def Frame.twoOperands : Frame :=
  { machine := ({} : Machine).perform (.push 7) |>.perform (.push 8) }

theorem Frame.reached_twoOperands : twoOperands.Reached :=
  .operation (.push 8) (.operation (.push 7) (.new ByteArray.empty (by decide)))

/-- Two words are exchanged, the lower one is copied, and three cannot be taken. -/
theorem Frame.operands_exact_two :
    let m := twoOperands.machine
    m.stack.fromBottom = [7, 8] ∧
    (∃ words', Exchanged 1 0 [7, 8] words' ∧
      (Machine.Operation.swap 1).action.run m = (.ok (), { m with stack := .ofBottom words' })) ∧
    (Machine.Operation.dup 2).action.run m =
      (.ok (), { m with stack := .ofBottom [7, 8, 7] }) ∧
    (Action.onStack (·.popMany 2)).run m = (.ok [8, 7], { m with stack := .ofBottom [] }) ∧
    (Action.onStack (·.popMany 3)).run m = (.error (.stackUnderflow 3 2), m) := by
  intro m
  obtain ⟨-, -, hpop, hdup, hswap, -⟩ := operands_exact reached_twoOperands
  obtain ⟨words', hexchanged, hrun, -⟩ := (hswap 1 (by decide)).1 (by decide)
  exact ⟨rfl, ⟨words', hexchanged, hrun⟩, hdup 2 (by decide), hpop 2, hpop 3⟩

/-- Not every exchange that reaches below the bottom is refused for that. -/
theorem Frame.not_swap_underflow :
    ¬ ∀ (f : Frame) (below : Nat), f.Reached → below ≤ maxPosition →
      f.machine.stack.depth ≤ below →
      (Machine.Operation.swap below).action.run f.machine =
        (.error (.stackUnderflow (below + 1) f.machine.stack.depth), f.machine) := by
  intro h
  have hrun := h twoOperands maxPosition reached_twoOperands le_rfl (by decide)
  have hfault := congrArg Prod.fst hrun
  rw [Machine.run_swap, Stack.swap, if_pos le_rfl] at hfault
  cases hfault

end BytecodeDebugger
