/-
`argparse_parse` moves the words it keeps to the front of `argv`, the array it still
reads from.
-/
import NtapiExamples.Argparse.Tables

namespace NtapiExamples

namespace Argparse

variable {V : Type}

/-- The array begins with the words that are kept, and the words still to be read are
behind a gap that the name of the program is in at least. -/
structure Shows (st : Argparse V) (kept rest : List Text) : Prop where
  array : ∃ gap : List (Option Text), gap ≠ [] ∧
    st.array = kept.map some ++ (gap ++ (rest.map some ++ [none])) ∧
    st.argv = kept.length + gap.length
  cpidx : st.cpidx = kept.length
  argc : st.argc = rest.length

/-- Both look at the same places of the same array. -/
structure SamePlace (st st' : Argparse V) : Prop where
  argc : st'.argc = st.argc
  argv : st'.argv = st.argv
  array : st'.array = st.array
  cpidx : st'.cpidx = st.cpidx

theorem SamePlace.rfl {st : Argparse V} : SamePlace st st :=
  ⟨Eq.refl _, Eq.refl _, Eq.refl _, Eq.refl _⟩

theorem SamePlace.shows {st st' : Argparse V} (h : SamePlace st st')
    {kept rest : List Text} (hshows : Shows st kept rest) :
    Shows st' kept rest where
  array := by rw [h.array, h.argv]; exact hshows.array
  cpidx := h.cpidx.trans hshows.cpidx
  argc := h.argc.trans hshows.argc

theorem Shows.withStore {st : Argparse V} {kept rest : List Text}
    (h : Shows st kept rest) (optvalue : Option Text) (values : Values V) :
    Shows { st with optvalue := optvalue, values := values } kept rest :=
  ⟨h.array, h.cpidx, h.argc⟩

theorem Shows.word {st : Argparse V} {kept rest : List Text} {w : Text}
    (h : Shows st kept (w :: rest)) : st.word st.argv = w := by
  rcases h.array with ⟨gap, _, harray, hargv⟩
  simp [Argparse.word, harray, hargv]

theorem Shows.word_succ {st : Argparse V} {kept rest : List Text}
    {w v : Text} (h : Shows st kept (w :: v :: rest)) :
    st.word (st.argv + 1) = v := by
  rcases h.array with ⟨gap, _, harray, hargv⟩
  have hfront : kept.length + gap.length + 1 - kept.length - gap.length = 1 := by
    omega
  rw [Argparse.word, harray, hargv, List.getD_eq_getElem?_getD,
    List.getElem?_append_right (by simp only [List.length_map]; omega),
    List.getElem?_append_right (by simp only [List.length_map]; omega),
    List.length_map, hfront]
  simp

theorem Shows.next {st : Argparse V} {kept rest : List Text} {w : Text}
    (h : Shows st kept (w :: rest)) : Shows st.next kept rest := by
  rcases h.array with ⟨gap, hgap, harray, hargv⟩
  constructor
  · refine ⟨gap ++ [some w], by simp, ?_, ?_⟩
    · simpa [Argparse.next] using harray
    · simp only [Argparse.next, List.length_append, List.length_singleton]
      omega
  · exact h.cpidx
  · simp [Argparse.next, h.argc]

/-- The word is written into the gap, which closes up behind it. -/
theorem Shows.keep {st : Argparse V} {kept rest : List Text} {w : Text}
    (h : Shows st kept (w :: rest)) :
    Shows (Argparse.next
      { st with
        array := st.array.set st.cpidx (st.array.getD st.argv none)
        cpidx := st.cpidx + 1 }) (kept ++ [w]) rest := by
  rcases h.array with ⟨gap, hgap, harray, hargv⟩
  have hread : st.array.getD st.argv none = some w := by
    simp [harray, hargv]
  cases gap with
  | nil => exact absurd rfl hgap
  | cons first gap =>
      constructor
      · refine ⟨gap ++ [some w], by simp, ?_, ?_⟩
        · rw [Argparse.next, hread, harray, h.cpidx]
          simp
        · simp only [Argparse.next, hargv, List.length_append,
            List.length_cons, List.length_nil]
          omega
      · simp [Argparse.next, h.cpidx]
      · simp [Argparse.next, h.argc]

/-- At the start of `argparse_parse`. -/
theorem shows_start (program : Text) (args : List Text) (values : Values V) :
    Shows ⟨args.length, 1, (program :: args).map some ++ [none], 0, none, values⟩
      [] args where
  array := ⟨[some program], by simp, by simp, by simp⟩
  cpidx := rfl
  argc := rfl

/-- The end of `argparse_parse` puts the words that are left behind the ones that are
kept. -/
theorem Shows.finish {st : Argparse V} {kept rest : List Text}
    (h : Shows st kept rest) :
    ((memmove st.array st.cpidx st.argv st.argc).set (st.cpidx + st.argc)
        none).take (st.cpidx + st.argc + 1) =
      (kept ++ rest).map some ++ [none] := by
  rcases h.array with ⟨gap, hgap, harray, hargv⟩
  have hlength : 0 < gap.length := List.length_pos_iff.mpr hgap
  have hfront : st.array.take st.cpidx = kept.map some := by
    rw [harray, h.cpidx]
    exact List.take_left' (by simp)
  have hmoved : (st.array.drop st.argv).take st.argc = rest.map some := by
    rw [harray, hargv, h.argc, ← List.append_assoc,
      List.drop_left' (by simp)]
    exact List.take_left' (by simp)
  have hne : st.array.drop (st.cpidx + st.argc) ≠ [] := by
    intro hnil
    have hlong := congrArg List.length hnil
    rw [harray, h.cpidx, h.argc] at hlong
    simp only [List.length_drop, List.length_append, List.length_map,
      List.length_singleton, List.length_nil] at hlong
    omega
  obtain ⟨old, behind, hbehind⟩ := List.exists_cons_of_ne_nil hne
  have hsum : st.cpidx + st.argc = ((kept ++ rest).map some).length := by
    rw [h.cpidx, h.argc, List.length_map, List.length_append]
  rw [memmove, hfront, hmoved, hbehind, ← List.map_append, hsum,
    List.set_append_right _ _ (Nat.le_refl _), Nat.sub_self, List.set_cons_zero,
    List.take_append, List.take_of_length_le (Nat.le_succ _),
    Nat.add_sub_cancel_left]
  rfl

/-- The option has a variable that is not a flag. -/
def ArgparseOption.takesValue (opt : ArgparseOption V) : Bool :=
  opt.value.isSome && !opt.type.isFlag

/-- The reader has moved to the next word, or is where it was. -/
def Moved (moves : Bool) (st st' : Argparse V) : Prop :=
  if moves then 1 < st.argc ∧ SamePlace st.next st' else SamePlace st st'

/-- What a call of `argparse_getvalue` leaves: an option with a value has taken the
next word when there was no value yet, and there is none behind it. -/
def TakesSo (opt : ArgparseOption V) (st st' : Argparse V) : Prop :=
  Moved (opt.takesValue && st.optvalue.isNone) st st' ∧
    st'.optvalue = if opt.takesValue then none else st.optvalue

structure Getvalue.Takes (getvalue : Getvalue V) : Prop where
  takes : ∀ {opt : ArgparseOption V} {unset longForm : Bool}
    {st st' : Argparse V} {result : Int},
    getvalue opt unset longForm st = .ok (result, st') → TakesSo opt st st'

theorem runCallback_ok {opt : ArgparseOption V} {st st' : Argparse V}
    {result : Int} (h : runCallback opt st = .ok (result, st')) : st' = st := by
  rw [runCallback] at h
  cases hcase : opt.callback with
  | some callback =>
      cases callback
      rw [hcase] at h
      exact absurd h (by simp)
  | none =>
      rw [hcase] at h
      exact (congrArg Prod.snd (Except.ok.inj h)).symm

theorem takeValue_moved {st st₁ : Argparse V} {value : Text}
    (h : st.takeValue = some (value, st₁)) (values : Values V) :
    Moved st.optvalue.isNone st { st₁ with values := values } ∧
      st₁.optvalue = none := by
  rw [Argparse.takeValue] at h
  split at h
  · rename_i hsome
    obtain ⟨rfl, rfl⟩ := Prod.mk.inj (Option.some.inj h)
    rw [hsome]
    exact ⟨⟨rfl, rfl, rfl, rfl⟩, rfl⟩
  · rename_i hnone
    split at h
    · rename_i hargc
      obtain ⟨rfl, rfl⟩ := Prod.mk.inj (Option.some.inj h)
      rw [hnone]
      exact ⟨⟨hargc, rfl, rfl, rfl, rfl⟩, hnone⟩
    · exact absurd h (by simp)

/-- An option that takes no value leaves the array as it is. -/
theorem flag_takes {opt : ArgparseOption V} (hopt : opt.takesValue = false)
    {st st' : Argparse V} (values : Values V) {result : Int}
    (h : runCallback opt { st with values := values } = .ok (result, st')) :
    TakesSo opt st st' := by
  rw [runCallback_ok h, TakesSo, hopt]
  exact ⟨⟨rfl, rfl, rfl, rfl⟩, rfl⟩

theorem valued_takes {opt : ArgparseOption V} (hopt : opt.takesValue = true)
    {st st₁ st' : Argparse V} {value : Text} {values : Values V} {result : Int}
    (htake : st.takeValue = some (value, st₁))
    (h : runCallback opt { st₁ with values := values } = .ok (result, st')) :
    TakesSo opt st st' := by
  rw [runCallback_ok h, TakesSo, hopt, Bool.true_and]
  exact takeValue_moved htake values

theorem takesValue_of_none {opt : ArgparseOption V} (hvalue : opt.value = none) :
    opt.takesValue = false := by
  rw [ArgparseOption.takesValue, hvalue]
  rfl

theorem takesValue_of_some {opt : ArgparseOption V} {v : V}
    (hvalue : opt.value = some v) : opt.takesValue = !opt.type.isFlag := by
  rw [ArgparseOption.takesValue, hvalue]
  rfl

section

variable [DecidableEq V]

theorem Ntnetflow.argparseGetvalue_takes :
    Getvalue.Takes (Ntnetflow.argparseGetvalue (V := V)) where
  takes := by
    intro opt unset longForm st st' result h
    rw [Ntnetflow.argparseGetvalue] at h
    split at h
    · rename_i hvalue
      exact flag_takes (takesValue_of_none hvalue) st.values h
    · rename_i hvalue
      have hopt := takesValue_of_some hvalue
      split at h
      all_goals rename_i htype; rw [htype] at hopt
      · exact flag_takes hopt _ h
      · exact flag_takes hopt _ h
      · exact flag_takes hopt _ h
      · split at h
        · exact absurd h (by simp)
        · rename_i htake
          exact valued_takes hopt htake h
      · split at h
        · exact absurd h (by simp)
        · rename_i htake
          split at h
          · exact absurd h (by simp)
          · exact valued_takes hopt htake h
      · split at h
        · exact absurd h (by simp)
        · rename_i htake
          split at h
          · exact absurd h (by simp)
          · exact valued_takes hopt htake h

theorem Replay.argparseGetvalue_takes :
    Getvalue.Takes (Replay.argparseGetvalue (V := V)) where
  takes := by
    intro opt unset longForm st st' result h
    rw [Replay.argparseGetvalue] at h
    split at h
    · rename_i hvalue
      exact flag_takes (takesValue_of_none hvalue) st.values h
    · rename_i hvalue
      have hopt := takesValue_of_some hvalue
      split at h
      all_goals rename_i htype; rw [htype] at hopt
      · exact flag_takes hopt _ h
      · split at h
        · exact absurd h (by simp)
        · exact flag_takes hopt _ h
      · split at h
        · exact absurd h (by simp)
        · exact flag_takes hopt _ h
      · split at h
        · exact absurd h (by simp)
        · rename_i htake
          exact valued_takes hopt htake h
      · split at h
        · exact absurd h (by simp)
        · rename_i htake
          split at h
          · exact absurd h (by simp)
          · split at h
            · exact absurd h (by simp)
            · exact valued_takes hopt htake h
      · split at h
        · exact absurd h (by simp)
        · rename_i htake
          split at h
          · exact absurd h (by simp)
          · split at h
            · exact absurd h (by simp)
            · exact valued_takes hopt htake h

end

theorem Source.takes [DecidableEq V] (source : Source) :
    (source.copy (V := V)).getvalue.Takes := by
  cases source with
  | ntnetflow => exact Ntnetflow.argparseGetvalue_takes
  | replay => exact Replay.argparseGetvalue_takes

/-- `arg[0] != '-' || !arg[1]`. -/
def isOperand (arg : Text) : Prop := arg.headD '\x00' ≠ '-' ∨ arg.tail = []

instance (arg : Text) : Decidable (isOperand arg) :=
  inferInstanceAs (Decidable (_ ∨ _))

section

variable (options : List (ArgparseOption V))

/-- The letters of a word are flags up to one with a value, which is the rest of the
word, or the next word when there is no rest. -/
def lettersTake : Text → Bool
  | [] => false
  | c :: letters =>
      match options.find? fun opt => opt.shortName == c with
      | none => false
      | some opt =>
          if opt.takesValue then letters.isEmpty else lettersTake letters

/-- The option with the name in a long word, and whether a value is behind `=`. -/
def longOption (body : Text) : Option (ArgparseOption V × Bool) :=
  options.findSome? fun opt =>
    match longRest opt body with
    | some (_, []) => some (opt, false)
    | some (_, '=' :: _) => some (opt, true)
    | _ => none

/-- Whether the options of a word take the next word, and whether a value is left
over behind them, when one was left over before them or not. -/
def optionTakes (leftover : Bool) (arg : Text) : Bool × Bool :=
  if arg.tail.headD '\x00' ≠ '-' then (lettersTake options arg.tail, false)
  else match longOption options (arg.drop 2) with
    | none => (false, leftover)
    | some (opt, attached) =>
        (opt.takesValue && !(leftover || attached),
          !opt.takesValue && (leftover || attached))

/-- The words that are neither options nor their values, when the first one is a
value or not, and a value is left over or not. -/
def keptWords (stopAtNonOption : Bool) : Bool → Bool → List Text → List Text
  | _, _, [] => []
  | true, leftover, _ :: rest => keptWords stopAtNonOption false leftover rest
  | false, leftover, arg :: rest =>
      if isOperand arg then
        if stopAtNonOption then arg :: rest
        else arg :: keptWords stopAtNonOption false leftover rest
      else if arg = ['-', '-'] then rest
      else
        let (value, leftover) := optionTakes options leftover arg
        keptWords stopAtNonOption value leftover rest

theorem keptWords_sublist (stopAtNonOption value leftover : Bool)
    (words : List Text) :
    (keptWords options stopAtNonOption value leftover words).Sublist words := by
  induction words generalizing value leftover with
  | nil => cases value <;> exact List.Sublist.refl _
  | cons arg rest ih =>
      cases value with
      | true => exact (ih false leftover).cons arg
      | false =>
          rw [keptWords]
          split
          · split
            · exact List.Sublist.refl _
            · exact (ih false leftover).cons_cons arg
          · split
            · exact List.sublist_cons_self _ _
            · exact (ih _ _).cons arg

end

/-- After an option the reader is on its word, or on the value that it took. -/
def AtOption (st : Argparse V) (kept : List Text) (arg : Text)
    (rest : List Text) : Bool → Prop
  | false => Shows st kept (arg :: rest)
  | true => ∃ value rest', rest = value :: rest' ∧ Shows st kept (value :: rest')

section

variable {copy : Copy V} (htakes : copy.getvalue.Takes)
  {options : List (ArgparseOption V)}

include htakes

theorem getvalue_atOption {opt : ArgparseOption V} {unset longForm : Bool}
    {st st' : Argparse V} {result : Int} {kept rest : List Text} {arg : Text}
    (h : copy.getvalue opt unset longForm st = .ok (result, st'))
    (hshows : Shows st kept (arg :: rest)) :
    AtOption st' kept arg rest (opt.takesValue && st.optvalue.isNone) := by
  have hmoved := (htakes.takes h).1
  rw [Moved] at hmoved
  split at hmoved
  · rename_i htake
    rw [htake]
    obtain ⟨hargc, hplace⟩ := hmoved
    rw [hshows.argc] at hargc
    cases rest with
    | nil => exact absurd hargc (by simp)
    | cons value rest => exact ⟨value, rest, rfl, hplace.shows hshows.next⟩
  · rename_i htake
    rw [Bool.not_eq_true] at htake
    rw [htake]
    exact hmoved.shows hshows

theorem argparseShortOpt_atOption {st st' : Argparse V} {result : Int}
    {kept rest : List Text} {arg letters : Text} {c : Char}
    (h : argparseShortOpt copy.getvalue options st = .ok (result, st'))
    (hfound : result ≠ -2) (hvalue : st.optvalue = some (c :: letters))
    (hshows : Shows st kept (arg :: rest)) :
    ∃ opt, (options.find? fun opt => opt.shortName == c) = some opt ∧
      AtOption st' kept arg rest (opt.takesValue && letters.isEmpty) ∧
      st'.optvalue =
        if opt.takesValue ∨ letters = [] then none else some letters := by
  induction options with
  | nil =>
      obtain ⟨rfl, -⟩ := Prod.mk.inj (Except.ok.inj h)
      exact absurd rfl hfound
  | cons opt options ih =>
      simp only [argparseShortOpt, hvalue, Option.getD_some, List.headD_cons,
        List.tail_cons] at h
      split at h
      · rename_i hname
        have hat := getvalue_atOption htakes h (hshows.withStore _ st.values)
        have hleft := (htakes.takes h).2
        refine ⟨opt, by rw [List.find?_cons, beq_iff_eq.mpr hname], ?_, ?_⟩
        · cases letters with
          | nil => exact hat
          | cons c' letters => exact hat
        · rw [hleft]
          cases letters <;> simp
      · rename_i hname
        obtain ⟨opt', hfind, hrest⟩ := ih h
        refine ⟨opt', ?_, hrest⟩
        rw [List.find?_cons, beq_eq_false_iff_ne.mpr hname, hfind]

theorem argparseLongOpt_atOption {st st' : Argparse V} {result : Int}
    {kept rest : List Text} {arg : Text}
    (h : argparseLongOpt copy.getvalue options st = .ok (result, st'))
    (hfound : result ≠ -2) (hshows : Shows st kept (arg :: rest)) :
    ∃ opt attached, longOption options (arg.drop 2) = some (opt, attached) ∧
      AtOption st' kept arg rest
        (opt.takesValue && !(st.optvalue.isSome || attached)) ∧
      st'.optvalue.isSome =
        (!opt.takesValue && (st.optvalue.isSome || attached)) := by
  induction options with
  | nil =>
      obtain ⟨rfl, -⟩ := Prod.mk.inj (Except.ok.inj h)
      exact absurd rfl hfound
  | cons opt options ih =>
      rw [argparseLongOpt, hshows.word] at h
      split at h
      · rename_i hrest
        have hat := getvalue_atOption htakes h hshows
        have hleft := (htakes.takes h).2
        refine ⟨opt, false, ?_, ?_, ?_⟩
        · rw [longOption, List.findSome?_cons, hrest]
        · rw [Bool.or_false, Option.not_isSome]
          exact hat
        · rw [hleft, Bool.or_false]
          cases opt.takesValue <;> rfl
      · rename_i hrest
        have hat := getvalue_atOption htakes h (hshows.withStore _ st.values)
        have hleft := (htakes.takes h).2
        refine ⟨opt, true, ?_, ?_, ?_⟩
        · rw [longOption, List.findSome?_cons, hrest]
          rfl
        · rw [Bool.or_true]
          exact hat
        · rw [hleft, Bool.or_true]
          cases opt.takesValue <;> rfl
      · rename_i hempty hequal
        obtain ⟨opt', attached, hlong, hrest⟩ := ih h
        refine ⟨opt', attached, ?_, hrest⟩
        rw [longOption, List.findSome?_cons]
        split
        · rename_i hsome
          split at hsome
          · rename_i heq
            exact absurd heq (hempty _)
          · rename_i heq
            exact absurd heq (hequal _ _)
          · cases hsome
        · exact hlong

/-- A value is taken by the last letter of a word only. -/
theorem shortOpts_atOption {n : Nat} {st st' : Argparse V}
    {kept rest : List Text} {arg letters : Text}
    (h : shortOpts copy options n st = .ok st')
    (hvalue : st.optvalue = some letters) (hne : letters ≠ [])
    (hn : letters.length ≤ n) (hshows : Shows st kept (arg :: rest)) :
    AtOption st' kept arg rest (lettersTake options letters) ∧
      st'.optvalue = none := by
  induction n generalizing st letters with
  | zero => exact absurd (List.eq_nil_of_length_eq_zero (Nat.le_zero.mp hn)) hne
  | succ n ih =>
      cases letters with
      | nil => exact absurd rfl hne
      | cons c letters =>
          rw [shortOpts, hvalue, if_neg (Option.some_ne_none _)] at h
          rcases hshort : argparseShortOpt copy.getvalue options st with
            exit | ⟨result, st₁⟩
          · rw [hshort] at h
            exact absurd h (by simp [bind, Except.bind])
          · rw [hshort] at h
            simp only [bind, Except.bind] at h
            split at h
            · exact absurd h (by simp)
            · rename_i hfound
              obtain ⟨opt, hfind, hat, hleft⟩ :=
                argparseShortOpt_atOption htakes hshort hfound hvalue hshows
              have hend : st₁.optvalue = none →
                  st' = st₁ ∧ st'.optvalue = none := by
                intro hnone
                cases n with
                | zero => exact Except.ok.inj h ▸ ⟨rfl, hnone⟩
                | succ n =>
                    rw [shortOpts, if_pos hnone] at h
                    exact Except.ok.inj h ▸ ⟨rfl, hnone⟩
              simp only [lettersTake, hfind]
              cases htake : opt.takesValue with
              | true =>
                  rw [htake, if_pos (Or.inl rfl)] at hleft
                  obtain ⟨rfl, hnone⟩ := hend hleft
                  rw [htake, Bool.true_and] at hat
                  exact ⟨by simpa only [if_true] using hat, hnone⟩
              | false =>
                  rw [htake, Bool.false_and] at hat
                  cases letters with
                  | nil =>
                      rw [if_pos (Or.inr rfl)] at hleft
                      obtain ⟨rfl, hnone⟩ := hend hleft
                      exact ⟨hat, hnone⟩
                  | cons c' letters =>
                      rw [htake, if_neg (by simp)] at hleft
                      exact ih h hleft (List.cons_ne_nil _ _)
                        (Nat.le_of_succ_le_succ hn) hat

theorem letters_atOption {st st' : Argparse V} {kept rest : List Text} {arg : Text}
    (h : shortOpts copy options arg.tail.length
      { st with optvalue := some arg.tail } = .ok st')
    (hoption : ¬ isOperand arg) (hshort : arg.tail.headD '\x00' ≠ '-')
    (hshows : Shows st kept (arg :: rest)) :
    AtOption st' kept arg rest (optionTakes options st.optvalue.isSome arg).1 ∧
      st'.optvalue.isSome = (optionTakes options st.optvalue.isSome arg).2 := by
  rw [isOperand, not_or] at hoption
  obtain ⟨hat, hnone⟩ := shortOpts_atOption htakes h rfl hoption.2
    (Nat.le_refl _) (hshows.withStore _ st.values)
  rw [optionTakes, if_pos hshort, hnone]
  exact ⟨hat, rfl⟩

theorem longOpt_atOption {st st' : Argparse V} {result : Int}
    {kept rest : List Text} {arg : Text}
    (h : argparseLongOpt copy.getvalue options st = .ok (result, st'))
    (hfound : result ≠ -2) (hlong : ¬ arg.tail.headD '\x00' ≠ '-')
    (hshows : Shows st kept (arg :: rest)) :
    AtOption st' kept arg rest (optionTakes options st.optvalue.isSome arg).1 ∧
      st'.optvalue.isSome = (optionTakes options st.optvalue.isSome arg).2 := by
  obtain ⟨opt, attached, hname, hat, hleft⟩ :=
    argparseLongOpt_atOption htakes h hfound hshows
  rw [optionTakes, if_neg hlong, hname]
  exact ⟨hat, hleft⟩

omit htakes

/-- What the loop keeps within so many words, with what it leaves to be kept as it
stands, are the words that the table makes neither options nor values. -/
def LoopKeeps (copy : Copy V) (options : List (ArgparseOption V))
    (stopAtNonOption : Bool) (words : Nat) (st' : Argparse V) : Prop :=
  ∀ (st : Argparse V) (kept rest : List Text),
    parseLoop copy options stopAtNonOption words st = .ok st' →
    Shows st kept rest → rest.length ≤ words →
    ∃ more left, Shows st' (kept ++ more) left ∧
      keptWords options stopAtNonOption false st.optvalue.isSome rest =
        more ++ left

/-- Behind an option the loop goes on with the words it has not taken. -/
theorem LoopKeeps.behind {stopAtNonOption : Bool} {words : Nat}
    {st₁ st' : Argparse V} {kept rest : List Text} {arg : Text}
    {taken : Bool × Bool} (hkeeps : LoopKeeps copy options stopAtNonOption words st')
    (hloop : parseLoop copy options stopAtNonOption words st₁.next = .ok st')
    (hat : AtOption st₁ kept arg rest taken.1 ∧ st₁.optvalue.isSome = taken.2)
    (hlength : rest.length ≤ words) :
    ∃ more left, Shows st' (kept ++ more) left ∧
      keptWords options stopAtNonOption taken.1 taken.2 rest = more ++ left := by
  obtain ⟨takes, leftover⟩ := taken
  obtain ⟨hat, rfl⟩ := hat
  cases takes with
  | false => exact hkeeps st₁.next _ _ hloop hat.next hlength
  | true =>
      obtain ⟨value, rest', rfl, hshows⟩ := hat
      exact hkeeps st₁.next _ _ hloop hshows.next (Nat.le_of_succ_le hlength)

theorem eq_dashes {arg : Text} (hoption : ¬ isOperand arg)
    (hlong : ¬ arg.tail.headD '\x00' ≠ '-') (hend : arg.tail.tail = []) :
    arg = ['-', '-'] := by
  rw [isOperand, not_or, not_not] at hoption
  rw [not_not] at hlong
  rcases arg with _ | ⟨c, _ | ⟨d, _ | _⟩⟩
  · exact absurd rfl hoption.2
  · exact absurd rfl hoption.2
  · rw [show c = '-' from hoption.1, show d = '-' from hlong]
  · exact absurd hend (by simp)

include htakes

theorem parseLoop_kept {stopAtNonOption : Bool} {words : Nat}
    {st' : Argparse V} : LoopKeeps copy options stopAtNonOption words st' := by
  induction words with
  | zero =>
      intro st kept rest h hshows hwords
      obtain rfl := List.eq_nil_of_length_eq_zero (Nat.le_zero.mp hwords)
      exact ⟨[], [], by simpa using Except.ok.inj h ▸ hshows, rfl⟩
  | succ words ih =>
      intro st kept rest h hshows hwords
      simp only [parseLoop] at h
      split at h
      · rename_i hargc
        rw [hshows.argc] at hargc
        obtain rfl := List.eq_nil_of_length_eq_zero hargc
        exact ⟨[], [], by simpa using Except.ok.inj h ▸ hshows, rfl⟩
      · rename_i hargc
        cases rest with
        | nil => exact absurd hshows.argc hargc
        | cons arg rest =>
            have hlength := Nat.le_of_succ_le_succ hwords
            rw [hshows.word] at h
            split at h
            · rename_i hoperand
              rw [keptWords, if_pos (show isOperand arg from hoperand)]
              split at h
              · rename_i hstop
                exact ⟨[], arg :: rest, by simpa using Except.ok.inj h ▸ hshows,
                  if_pos hstop⟩
              · rename_i hstop
                obtain ⟨more, left, hend, hkept⟩ := ih _ _ _ h hshows.keep hlength
                exact ⟨arg :: more, left, by simpa using hend,
                  (if_neg hstop).trans (congrArg (arg :: ·) hkept)⟩
            · rename_i hoption
              rw [keptWords, if_neg (show ¬ isOperand arg from hoption)]
              split at h
              · rename_i hshort
                have hdashes : arg ≠ ['-', '-'] := by
                  rintro rfl
                  exact hshort rfl
                rw [if_neg hdashes]
                rcases hopts : shortOpts copy options arg.tail.length
                    { st with optvalue := some arg.tail } with exit | st₁
                · rw [hopts] at h
                  exact absurd h (by simp [bind, Except.bind])
                · rw [hopts] at h
                  exact ih.behind h
                    (letters_atOption htakes hopts hoption hshort hshows) hlength
              · rename_i hlong
                split at h
                · rename_i hend
                  exact ⟨[], rest, by simpa using Except.ok.inj h ▸ hshows.next,
                    if_pos (eq_dashes hoption hlong hend)⟩
                · rename_i hend
                  have hdashes : arg ≠ ['-', '-'] := by
                    rintro rfl
                    exact hend rfl
                  rw [if_neg hdashes]
                  rcases hopt : argparseLongOpt copy.getvalue options st with
                    exit | ⟨result, st₁⟩
                  · rw [hopt] at h
                    exact absurd h (by simp [bind, Except.bind])
                  · rw [hopt] at h
                    simp only [bind, Except.bind] at h
                    split at h
                    · exact absurd h (by simp)
                    · rename_i hfound
                      exact ih.behind h
                        (longOpt_atOption htakes hopt hfound hlong hshows) hlength

end

/-- Whatever the options are, a command line that `argparse_parse` accepts is left as
the words that the table makes neither options nor values of options, in their order,
with a null pointer behind them. -/
theorem argparseParse_keeps [DecidableEq V] {source : Source}
    {options : List (ArgparseOption V)} {stopAtNonOption : Bool}
    {program : Text} {args : List Text} {values : Values V} {n : Nat}
    {st : Argparse V}
    (h : argparseParse source.copy options stopAtNonOption program args values =
      .ok (n, st)) :
    let kept := keptWords options stopAtNonOption false false args
    kept.Sublist args ∧ n = kept.length ∧
      st.array.take (n + 1) = kept.map some ++ [none] := by
  have htakes := source.takes (V := V)
  rw [argparseParse] at h
  rcases hloop : parseLoop source.copy options stopAtNonOption args.length
      ⟨args.length, 1, (program :: args).map some ++ [none], 0, none, values⟩
      with exit | st₁
  · rw [hloop] at h
    exact absurd h (by simp [bind, Except.bind])
  · rw [hloop] at h
    obtain ⟨rfl, rfl⟩ := Prod.mk.inj (Except.ok.inj h)
    obtain ⟨kept, left, hshows, hkept⟩ :=
      parseLoop_kept htakes _ _ _ hloop (shows_start program args values)
        (Nat.le_refl _)
    rw [List.nil_append] at hshows
    change keptWords options stopAtNonOption false false args = _ at hkept
    refine ⟨keptWords_sublist options stopAtNonOption false false args, ?_, ?_⟩
    · rw [hkept, List.length_append, hshows.cpidx, hshows.argc]
    · rw [hkept]
      exact hshows.finish

/-- A letter takes the word behind it, a flag does not, and a value that a flag leaves
over is taken for the word behind the next option. -/
theorem argparseParse_keeps_poll :
    let args := ["-vp".toList, ['5'], ['a'], "--stat=7".toList, "--poll".toList,
      ['b']]
    let kept := keptWords Ntnetflow.argOptions.options false false false args
    kept.Sublist args ∧ 2 = kept.length ∧ kept = [['a'], ['b']] := by
  obtain ⟨hsublist, hn, -⟩ :=
    @argparseParse_keeps Ntnetflow.Opt _ .ntnetflow
      Ntnetflow.argOptions.options false "ntnetflow".toList
      ["-vp".toList, ['5'], ['a'], "--stat=7".toList, "--poll".toList, ['b']]
      Ntnetflow.defaults 2 _ rfl
  exact ⟨hsublist, hn, by decide⟩

end Argparse

end NtapiExamples
