/-
What `ntpl_replace_xxxxx` makes of a row.  The loop goes on seven bytes behind
the start of an occurrence, and with a process id of six digits it compares the
terminator of the literal as well.
-/
import NtapiExamples.Ntnetflow.Ntpl

namespace NtapiExamples

namespace Ntnetflow

section Turn

variable {sz p : Nat} {xxxxx buffer : Text} {c : Char}

theorem replaceLoop_out (hout : buffer.length ≤ p) :
    replaceLoop sz xxxxx buffer p = none := by
  rw [replaceLoop, List.getElem?_eq_none hout]

theorem replaceLoop_end (hc : buffer[p]? = some c)
    (hend : c = '\x00' ∨ sz - xxxxx.length ≤ p) :
    replaceLoop sz xxxxx buffer p = some buffer := by
  have hstop : ¬ (c ≠ '\x00' ∧ p < sz - xxxxx.length) := by
    rintro ⟨hne, hlt⟩
    rcases hend with heq | hle
    · exact hne heq
    · omega
  rw [replaceLoop, hc]
  simp only [dif_neg hstop]

theorem replaceLoop_skip (hc : buffer[p]? = some c) (hne : c ≠ '\x00')
    (hlt : p < sz - xxxxx.length)
    (hsame : c = 'X' → sameXxxxx buffer p xxxxx.length = some false) :
    replaceLoop sz xxxxx buffer p = replaceLoop sz xxxxx buffer (p + 1) := by
  have hgo : c ≠ '\x00' ∧ p < sz - xxxxx.length := ⟨hne, hlt⟩
  rw [replaceLoop, hc]
  simp only [dif_pos hgo]
  by_cases hx : c = 'X'
  · rw [if_pos hx, hsame hx]
  · rw [if_neg hx]

theorem replaceLoop_hit (hc : buffer[p]? = some 'X')
    (hlt : p < sz - xxxxx.length)
    (hsame : sameXxxxx buffer p xxxxx.length = some true) :
    replaceLoop sz xxxxx buffer p =
      replaceLoop sz xxxxx (copyXxxxx buffer p xxxxx) (p + 7) := by
  have hgo : 'X' ≠ '\x00' ∧ p < sz - xxxxx.length := ⟨by decide, hlt⟩
  rw [replaceLoop, hc]
  simp only [dif_pos hgo, if_true, hsame]

end Turn

/-- A row whose text is `pre` and `t`, with `k` bytes behind it. -/
def rowAt (pre t : Text) (k : Nat) : Text :=
  pre ++ (t ++ List.replicate k '\x00')

section Row

variable {pre t : Text} {k : Nat} {c : Char}

@[simp] theorem rowAt_length :
    (rowAt pre t k).length = pre.length + (t.length + k) := by
  simp [rowAt]

theorem rowAt_cons : rowAt pre (c :: t) k = rowAt (pre ++ [c]) t k := by
  simp [rowAt]

theorem rowAt_append (u : Text) :
    rowAt pre (u ++ t) k = rowAt (pre ++ u) t k := by
  simp [rowAt]

@[simp] theorem rowAt_get_cons :
    (rowAt pre (c :: t) k)[pre.length]? = some c := by
  simp [rowAt]

/-- The bytes behind the text are zero. -/
theorem rowAt_get_behind {p : Nat} (hle : pre.length + t.length ≤ p)
    (hlt : p < pre.length + (t.length + k)) :
    (rowAt pre t k)[p]? = some '\x00' := by
  rw [rowAt, List.getElem?_append_right (by omega),
    List.getElem?_append_right (by omega), List.getElem?_replicate,
    if_pos (by omega)]

theorem cstr_rowAt (ht : '\x00' ∉ t) : Text.cstr (rowAt [] t k) = t := by
  rw [rowAt, List.nil_append, Text.cstr, List.takeWhile_append_of_pos]
  · cases k with
    | zero => simp
    | succ k => simp [List.replicate_succ]
  · intro c hc
    have hne : c ≠ '\x00' := fun heq => ht (heq ▸ hc)
    simp [hne]

theorem placeholder_ne_nil : placeholder ≠ [] := by decide

/-- The comparison of five bytes. -/
theorem same_five (hk : 0 < k) (hroom : 5 ≤ t.length + k) :
    sameXxxxx (rowAt pre t k) pre.length 5 =
      some (decide (placeholder <+: t)) := by
  have hroom' : pre.length + 5 ≤ (rowAt pre t k).length ∧
      5 ≤ placeholderMemory.length := by
    rw [rowAt_length]
    exact ⟨by omega, by decide⟩
  have hfree : ('\x00' : Char) ∉ placeholder := by decide
  obtain ⟨k', rfl⟩ : ∃ k', k = k' + 1 := ⟨k - 1, by omega⟩
  rw [sameXxxxx, if_pos hroom', rowAt, List.drop_left,
    Option.some.injEq, decide_eq_decide, List.replicate_succ,
    ← prefix_append_cons_iff hfree t, List.prefix_iff_eq_take, eq_comm]
  rfl

/-- The comparison of six bytes. -/
theorem same_six (ht : '\x00' ∉ t) (hk : 0 < k) (hroom : 6 ≤ t.length + k) :
    sameXxxxx (rowAt pre t k) pre.length 6 =
      some (decide (t = placeholder)) := by
  have hroom' : pre.length + 6 ≤ (rowAt pre t k).length ∧
      6 ≤ placeholderMemory.length := by
    rw [rowAt_length]
    exact ⟨by omega, by decide⟩
  obtain ⟨k', rfl⟩ : ∃ k', k = k' + 1 := ⟨k - 1, by omega⟩
  rw [sameXxxxx, if_pos hroom', rowAt, List.drop_left,
    Option.some.injEq, decide_eq_decide, List.replicate_succ]
  constructor
  · intro htake
    have hprefix : placeholderMemory <+: t ++ '\x00' ::
        List.replicate k' '\x00' := by
      rw [List.prefix_iff_eq_take]
      exact htake.symm
    obtain ⟨rest, hrest⟩ := hprefix
    have hcstr := congrArg Text.cstr hrest
    have hleft : Text.cstr (placeholderMemory ++ rest) = placeholder := by
      rfl
    have hright : Text.cstr (t ++ '\x00' :: List.replicate k' '\x00') = t :=
      @cstr_rowAt t (k' + 1) ht
    rw [← hright, ← hcstr, hleft]
  · rintro rfl
    rfl

end Row

/-- A copy at the start of `t` takes the place of as many bytes. -/
theorem copyXxxxx_rowAt {pre u t sub : Text} {k : Nat}
    (hlength : sub.length = u.length) :
    copyXxxxx (rowAt pre (u ++ t) k) pre.length sub =
      rowAt (pre ++ sub) t k := by
  simp [copyXxxxx, rowAt, hlength, List.drop_append]

section Five

variable {sz k : Nat} {sub pre : Text}

/-- Over an occurrence the loop goes on two bytes behind the copy. -/
theorem replaceLoop_five_hit {r : Text} (hlength : sub.length = 5)
    (hk : 0 < k) (hsz : sz = pre.length + (5 + r.length + k)) :
    replaceLoop sz sub (rowAt pre (placeholder ++ r) k) pre.length =
      replaceLoop sz sub (rowAt (pre ++ sub) r k) (pre.length + 7) := by
  have hfive : placeholder.length = 5 := by decide
  rw [replaceLoop_hit, copyXxxxx_rowAt (by rw [hlength, hfive])]
  · exact rowAt_get_cons
  · omega
  · rw [hlength, same_five hk (by rw [List.length_append, hfive]; omega)]
    simp

/-- Elsewhere it goes on with the next byte, unless what is left is short. -/
theorem replaceLoop_five_step {s : Text} {c : Char} (hlength : sub.length = 5)
    (hk : 0 < k) (hsz : sz = pre.length + (s.length + 1 + k)) (hc : c ≠ '\x00')
    (hnot : ¬ placeholder <+: c :: s) (hlong : 5 ≤ s.length + k) :
    replaceLoop sz sub (rowAt pre (c :: s) k) pre.length =
      replaceLoop sz sub (rowAt (pre ++ [c]) s k) (pre ++ [c]).length := by
  rw [replaceLoop_skip rowAt_get_cons hc (by omega), rowAt_cons,
    List.length_append, List.length_singleton]
  intro _
  rw [hlength, same_five hk (by rw [List.length_cons]; omega),
    decide_eq_false hnot]

/-- In the last five bytes nothing is replaced, and nothing is there. -/
theorem replaceLoop_five_short {s : Text} {c : Char} (hlength : sub.length = 5)
    (hsz : sz = pre.length + (s.length + 1 + k)) (hk : 0 < k)
    (hshort : s.length + k < 5) :
    replaceLoop sz sub (rowAt pre (c :: s) k) pre.length =
        some (rowAt pre (c :: s) k) ∧
      occurrences placeholder pre.length (c :: s) = [] := by
  refine ⟨replaceLoop_end rowAt_get_cons (Or.inr (by omega)), ?_⟩
  rw [List.eq_nil_iff_forall_not_mem]
  intro i hi
  have hle := le_of_mem_occurrences placeholder_ne_nil hi
  have hadd := add_length_le_of_mem_occurrences placeholder_ne_nil hi
  have hfive : placeholder.length = 5 := by decide
  rw [hfive, List.length_cons] at hadd
  omega

/-- With the occurrences apart and in the buffer, all are replaced. -/
theorem replaceLoop_five {t : Text} (hlength : sub.length = 5)
    (ht : '\x00' ∉ t) (hk : 0 < k) (hsz : sz = pre.length + (t.length + k))
    (hapart : (occurrences placeholder pre.length t).Pairwise
      fun i j => i + 7 ≤ j)
    (hroom : ∀ i ∈ occurrences placeholder pre.length t, i + 7 < sz) :
    replaceLoop sz sub (rowAt pre t k) pre.length =
      some (rowAt pre (replaceAll placeholder sub t) k) := by
  have hne := placeholder_ne_nil
  have hfive : placeholder.length = 5 := by decide
  induction t using pattern_induction hne generalizing pre with
  | nil =>
      rw [replaceAll_nil]
      exact replaceLoop_end (rowAt_get_behind le_rfl (by simpa using hk))
        (Or.inl rfl)
  | hit r ih =>
      rw [occurrences_hit hne, hfive] at hapart hroom
      rw [List.pairwise_cons] at hapart
      have hfar := hroom pre.length List.mem_cons_self
      rw [List.length_append, hfive] at hsz
      obtain ⟨hreplace, hoccur⟩ := @occurrences_late _ _ _ sub hne 2 _ _
        hapart.1
      rw [replaceLoop_five_hit hlength hk hsz, replaceAll_hit hne, hreplace]
      by_cases htwo : 2 ≤ r.length
      · have hnext : (pre ++ sub ++ r.take 2).length = pre.length + 7 := by
          rw [List.length_append, List.length_append, hlength,
            List.length_take_of_le htwo]
        have hrest := @ih (r.drop 2) (by simp) (pre ++ sub ++ r.take 2)
          (fun hmem => ht (List.mem_append_right _ (List.mem_of_mem_drop hmem)))
          (by rw [hnext, List.length_drop]; omega)
          (by rw [hnext, ← hoccur]; exact hapart.2)
          (by
            rw [hnext, ← hoccur]
            exact fun i hi => hroom i (List.mem_cons_of_mem _ hi))
        rw [← rowAt_append, List.take_append_drop, hnext] at hrest
        rw [hrest, rowAt_append, rowAt_append]
      · -- the loop is behind the text already
        have hshort : r.length ≤ 2 := by omega
        rw [List.drop_of_length_le hshort, List.take_of_length_le hshort,
          replaceAll_nil, List.append_nil, rowAt_append]
        refine replaceLoop_end (rowAt_get_behind ?_ ?_) (Or.inl rfl)
        · rw [List.length_append, hlength]
          omega
        · rw [List.length_append, hlength]
          omega
  | step c s hnot ih =>
      rw [List.mem_cons, not_or] at ht
      rw [List.length_cons] at hsz
      by_cases hlong : 5 ≤ s.length + k
      · rw [occurrences_cons hnot, ← @List.length_singleton _ c,
          ← List.length_append] at hapart hroom
        rw [replaceLoop_five_step hlength hk hsz (Ne.symm ht.1) hnot hlong,
          replaceAll_cons hnot, rowAt_cons]
        apply ih ht.2 _ hapart hroom
        rw [List.length_append, List.length_singleton]
        omega
      · obtain ⟨hend, hnone⟩ := @replaceLoop_five_short _ _ _ _ _ c hlength
          hsz hk (not_le.mp hlong)
        rw [hend, replaceAll_of_occurrences_nil hne hnone]

theorem take_of_take_add {s s' : Text} {p n : Nat}
    (htake : s.take (p + n) = s'.take (p + n)) : s.take p = s'.take p := by
  have hmin := congrArg (List.take p) htake
  rwa [List.take_take, List.take_take, Nat.min_eq_left (Nat.le_add_right p n)]
    at hmin

/-- The loop does not go back. -/
theorem take_of_replaceLoop {buffer out : Text} {p : Nat}
    (hloop : replaceLoop sz sub buffer p = some out) :
    out.take p = buffer.take p := by
  fun_induction replaceLoop sz sub buffer p with
  | case1 => simp at hloop
  | case2 => simp at hloop
  | case3 buffer p hsame hget hgo ih =>
      have hlt := (List.getElem?_eq_some_iff.mp hget).1
      rw [take_of_take_add (ih hloop), copyXxxxx, List.append_assoc,
        List.take_append_of_le_length]
      · rw [List.take_take, Nat.min_self]
      · rw [List.length_take]
        omega
  | case4 buffer p hsame hget hgo ih => exact take_of_take_add (ih hloop)
  | case5 buffer p c hget hgo hne ih => exact take_of_take_add (ih hloop)
  | case6 buffer p c hget hstop =>
      rw [Option.some.injEq] at hloop
      rw [hloop]

/-- What the loop leaves untouched before `p`. -/
theorem get_of_replaceLoop {buffer out : Text} {p i : Nat}
    (hloop : replaceLoop sz sub buffer p = some out) (hi : i < p) :
    out[i]? = buffer[i]? := by
  rw [← List.getElem?_take_of_lt hi, take_of_replaceLoop hloop,
    List.getElem?_take_of_lt hi]

/-- An occurrence that the loop jumps over keeps its X. -/
theorem late_of_replaceLoop {r out : Text} (hlength : sub.length = 5)
    (hsub : 'X' ∉ sub)
    (hloop : replaceLoop sz sub (rowAt (pre ++ sub) r k) (pre.length + 7) =
      some out)
    (hout : pre ++ sub ++ replaceAll placeholder sub r <+: out) :
    ∀ i ∈ occurrences placeholder (pre.length + 5) r,
      pre.length + 5 + 2 ≤ i := by
  have hne := placeholder_ne_nil
  have hbase : (pre ++ sub).length = pre.length + 5 := by
    rw [List.length_append, hlength]
  intro i hi
  by_contra hlt
  have hge := le_of_mem_occurrences hne hi
  obtain ⟨hnew, hold⟩ := getElem?_of_mem_occurrences hne hlength hi
  have hspec : out[i]? = sub[0]? := by
    obtain ⟨rest, rfl⟩ := hout
    have hsome : ((pre ++ sub) ++ replaceAll placeholder sub r)[i]? =
        sub[0]? := by
      rw [List.getElem?_append_right (by omega), hbase, hnew]
    rw [List.getElem?_append_left, hsome]
    have hpos : 0 < sub.length := by omega
    rw [List.getElem?_eq_getElem hpos] at hsome
    exact (List.getElem?_eq_some_iff.mp hsome).1
  have hkept : out[i]? = some 'X' := by
    have hX : r[i - (pre.length + 5)]? = some 'X' := hold
    rw [get_of_replaceLoop hloop (by omega), rowAt,
      List.getElem?_append_right (by omega), hbase,
      List.getElem?_append_left, hX]
    exact (List.getElem?_eq_some_iff.mp hX).1
  exact hsub (List.mem_of_getElem? (hspec.symm.trans hkept))

/-- The loop has replaced all occurrences only if they are apart and in the
buffer. -/
theorem apart_of_replaceLoop {t out : Text} (hlength : sub.length = 5)
    (hsub : 'X' ∉ sub) (ht : '\x00' ∉ t) (hk : 0 < k)
    (hsz : sz = pre.length + (t.length + k))
    (hloop : replaceLoop sz sub (rowAt pre t k) pre.length = some out)
    (hout : pre ++ replaceAll placeholder sub t <+: out) :
    ((occurrences placeholder pre.length t).Pairwise fun i j => i + 7 ≤ j) ∧
      ∀ i ∈ occurrences placeholder pre.length t, i + 7 < sz := by
  have hne := placeholder_ne_nil
  have hfive : placeholder.length = 5 := by decide
  induction t using pattern_induction hne generalizing pre with
  | nil => simp
  | hit r ih =>
      rw [List.length_append, hfive] at hsz
      rw [replaceLoop_five_hit hlength hk hsz] at hloop
      rw [replaceAll_hit hne, ← List.append_assoc] at hout
      rw [occurrences_hit hne, hfive]
      have hend : pre.length + 7 < sz := by
        by_contra hle
        rw [replaceLoop_out] at hloop
        · simp at hloop
        · rw [rowAt_length, List.length_append, hlength]
          omega
      have hlate := late_of_replaceLoop hlength hsub hloop hout
      obtain ⟨hreplace, hoccur⟩ := @occurrences_late _ _ _ sub hne 2 _ _ hlate
      have hrest : ((occurrences placeholder (pre.length + 5) r).Pairwise
            fun i j => i + 7 ≤ j) ∧
          ∀ i ∈ occurrences placeholder (pre.length + 5) r, i + 7 < sz := by
        by_cases htwo : 2 ≤ r.length
        · have hnext : (pre ++ sub ++ r.take 2).length = pre.length + 7 := by
            rw [List.length_append, List.length_append, hlength,
              List.length_take_of_le htwo]
          rw [hoccur, ← hnext]
          apply @ih (r.drop 2) (by simp) (pre ++ sub ++ r.take 2)
          · exact fun hmem =>
              ht (List.mem_append_right _ (List.mem_of_mem_drop hmem))
          · rw [hnext, List.length_drop]
            omega
          · rwa [hnext, ← rowAt_append, List.take_append_drop]
          · rwa [hreplace, ← List.append_assoc] at hout
        · rw [hoccur, List.drop_of_length_le (by omega), occurrences_nil]
          simp
      rw [List.pairwise_cons, List.forall_mem_cons]
      exact ⟨⟨hlate, hrest.1⟩, hend, hrest.2⟩
  | step c s hnot ih =>
      rw [List.mem_cons, not_or] at ht
      rw [List.length_cons] at hsz
      by_cases hlong : 5 ≤ s.length + k
      · rw [replaceLoop_five_step hlength hk hsz (Ne.symm ht.1) hnot hlong]
          at hloop
        rw [replaceAll_cons hnot] at hout
        rw [occurrences_cons hnot, ← @List.length_singleton _ c,
          ← List.length_append]
        apply ih ht.2 _ hloop
        · rwa [List.append_assoc]
        · rw [List.length_append, List.length_singleton]
          omega
      · rw [(@replaceLoop_five_short _ _ _ _ _ c hlength hsz hk
          (not_le.mp hlong)).2]
        simp

end Five

section Six

variable {sz k : Nat} {sub pre : Text}

/-- A row that does not end in an occurrence stays as it is. -/
theorem replaceLoop_six_none {t : Text} (hlength : sub.length = 6)
    (ht : '\x00' ∉ t) (hk : 0 < k) (hsz : sz = pre.length + (t.length + k))
    (hnone : ¬ placeholder <:+ t) :
    replaceLoop sz sub (rowAt pre t k) pre.length = some (rowAt pre t k) := by
  induction t generalizing pre with
  | nil =>
      exact replaceLoop_end (rowAt_get_behind le_rfl (by simpa using hk))
        (Or.inl rfl)
  | cons c s ih =>
      rw [List.mem_cons, not_or] at ht
      rw [List.suffix_cons_iff, not_or] at hnone
      rw [List.length_cons] at hsz
      by_cases hlt : pre.length < sz - sub.length
      · rw [replaceLoop_skip rowAt_get_cons (Ne.symm ht.1) hlt, rowAt_cons]
        · have hrest := @ih (pre ++ [c]) ht.2 (by simp; omega) hnone.2
          rwa [List.length_append, List.length_singleton] at hrest
        · intro _
          rw [hlength, same_six _ hk (by rw [List.length_cons]; omega),
            decide_eq_false (Ne.symm hnone.1)]
          simp [ht]
      · exact replaceLoop_end rowAt_get_cons (Or.inr (not_lt.mp hlt))

/-- An occurrence at the end of the text gets its six digits if the byte seven
behind its start is in the buffer. -/
theorem replaceLoop_six_end {u : Text} (hlength : sub.length = 6)
    (hu : '\x00' ∉ u) (hk : 0 < k) (hsz : sz = pre.length + (u.length + 5 + k)) :
    replaceLoop sz sub (rowAt pre (u ++ placeholder) k) pre.length =
      if 3 ≤ k then some (rowAt pre (u ++ sub) (k - 1))
      else if k = 2 then none else some (rowAt pre (u ++ placeholder) k) := by
  have hfive : placeholder.length = 5 := by decide
  have hfree : ('\x00' : Char) ∉ placeholder := by decide
  induction u generalizing pre with
  | nil =>
      rw [List.length_nil, Nat.zero_add] at hsz
      rw [List.nil_append, List.nil_append]
      by_cases hone : k = 1
      · rw [if_neg (by omega), if_neg (by omega)]
        exact replaceLoop_end rowAt_get_cons (Or.inr (by omega))
      · obtain ⟨k', rfl⟩ : ∃ k', k = k' + 1 := ⟨k - 1, by omega⟩
        have hrow : rowAt pre placeholder (k' + 1) =
            rowAt pre (placeholderMemory ++ []) k' := by
          simp [rowAt, placeholderMemory, List.replicate_succ]
        have hloop : replaceLoop sz sub (rowAt pre placeholder (k' + 1))
            pre.length =
            replaceLoop sz sub (rowAt pre sub k') (pre.length + 7) := by
          have hget : (rowAt pre placeholder (k' + 1))[pre.length]? = some 'X' :=
            rowAt_get_cons
          rw [replaceLoop_hit hget (by omega), hrow,
            copyXxxxx_rowAt (by rw [hlength]; rfl)]
          · rw [← rowAt_append, List.append_nil]
          · rw [hlength, same_six hfree hk (by rw [hfive]; omega)]
            simp
        rw [hloop, Nat.add_sub_cancel]
        by_cases htwo : k' + 1 = 2
        · rw [if_neg (by omega), if_pos htwo]
          apply replaceLoop_out
          rw [rowAt_length]
          omega
        · rw [if_pos (by omega)]
          refine replaceLoop_end (rowAt_get_behind ?_ ?_) (Or.inl rfl)
          · omega
          · omega
  | cons c u ih =>
      rw [List.mem_cons, not_or] at hu
      rw [List.length_cons] at hsz
      rw [List.cons_append, List.cons_append]
      by_cases hlt : pre.length < sz - sub.length
      · have hlong : (c :: (u ++ placeholder)).length = u.length + 6 := by
          simp [hfive]
        rw [replaceLoop_skip rowAt_get_cons (Ne.symm hu.1) hlt]
        · have hrest := @ih (pre ++ [c]) hu.2 (by simp; omega)
          rw [List.length_append, List.length_singleton] at hrest
          rw [rowAt_cons, hrest, rowAt_cons]
        · intro _
          rw [hlength, same_six _ hk (by omega), decide_eq_false]
          · intro heq
            have hlen := congrArg List.length heq
            omega
          · simp [hu, hfree]
      · have hone : k ≤ 1 := by omega
        rw [if_neg (by omega), if_neg (by omega)]
        exact replaceLoop_end rowAt_get_cons (Or.inr (not_lt.mp hlt))

end Six

end Ntnetflow

end NtapiExamples
