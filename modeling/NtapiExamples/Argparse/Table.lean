/-
Tables of options in which no option is mistaken for another, and what the two
searches of `argparse.c` find in them.
-/
import NtapiExamples.Argparse.Parse

namespace NtapiExamples

namespace Argparse

variable {V : Type}

/-- What negates the name of a flag. -/
def no : Text := ['n', 'o', '-']

def ArgparseOption.negatable (opt : ArgparseOption V) : Bool :=
  !opt.noneg && opt.type.isFlag

/-- The options share no name, and none has the negated name of the other. -/
def Apart (opt opt' : ArgparseOption V) : Prop :=
  (opt.shortName = opt'.shortName → opt.shortName = '\x00') ∧
    ∀ name ∈ opt.longName, ∀ name' ∈ opt'.longName, name ≠ name' ∧
      (opt.negatable = true → name' ≠ no ++ name) ∧
      (opt'.negatable = true → name ≠ no ++ name')

instance (opt opt' : ArgparseOption V) : Decidable (Apart opt opt') :=
  inferInstanceAs (Decidable (_ ∧ _))

structure OptionTable (V : Type) where
  options : List (ArgparseOption V)
  apart : options.Pairwise Apart
  plain : ∀ opt ∈ options, ∀ name ∈ opt.longName, '=' ∉ name

/-- What may stand behind the name of a long option. -/
def ValueTail (tail : Text) : Prop := tail = [] ∨ ∃ value, tail = '=' :: value

/-- The name as a word has it. -/
def spelled (unset : Bool) (name : Text) : Text :=
  if unset then no ++ name else name

theorem eq_not_mem_spelled {name : Text} (h : '=' ∉ name) (unset : Bool) :
    '=' ∉ spelled unset name := by
  cases unset <;> simp [spelled, no, h]

/-- A word has one name. -/
theorem spelled_eq {p q tail tail' : Text} (hp : '=' ∉ p) (hq : '=' ∉ q)
    (htail : ValueTail tail) (htail' : ValueTail tail')
    (h : p ++ tail = q ++ tail') : p = q := by
  have hfront : ∀ {r t : Text}, '=' ∉ r → ValueTail t →
      (r ++ t).takeWhile (fun c => c ≠ '=') = r := by
    intro r t hr ht
    have hpass : ∀ c ∈ r, decide (c ≠ '=') = true := by
      intro c hc
      exact decide_eq_true fun heq => hr (heq ▸ hc)
    rw [List.takeWhile_append_of_pos hpass]
    rcases ht with rfl | ⟨value, rfl⟩
    · exact List.append_nil r
    · simp
  rw [← hfront hp htail, h, hfront hq htail']

theorem prefixSkip_append (name rest : Text) :
    prefixSkip (name ++ rest) name = some rest := by
  rw [prefixSkip, if_pos (by simp), List.drop_left]

theorem prefixSkip_some {str pre rest : Text}
    (h : prefixSkip str pre = some rest) : str = pre ++ rest := by
  rw [prefixSkip] at h
  split at h
  · rename_i hpre
    rw [List.isPrefixOf_iff_prefix] at hpre
    rcases hpre with ⟨behind, rfl⟩
    rw [List.drop_left] at h
    rw [Option.some.inj h]
  · exact absurd h (by simp)

theorem longRest_some {opt : ArgparseOption V} {arg rest : Text} {unset : Bool}
    (h : longRest opt arg = some (unset, rest)) :
    ∃ name ∈ opt.longName, arg = spelled unset name ++ rest ∧
      (unset = true → opt.negatable = true) := by
  rw [longRest] at h
  cases hname : opt.longName with
  | none => rw [hname] at h; exact absurd h (by simp)
  | some name =>
      rw [hname] at h
      simp only [Option.bind_eq_bind, Option.bind_some] at h
      refine ⟨name, rfl, ?_⟩
      split at h
      · rename_i hskip
        obtain ⟨rfl, rfl⟩ := Prod.mk.inj (Option.some.inj h)
        exact ⟨prefixSkip_some hskip, by simp⟩
      · split at h
        · exact absurd h (by simp)
        · rename_i hneg
          split at h
          · exact absurd h (by simp)
          · rename_i hflag
            split at h
            · rename_i hno
              rw [Option.map_eq_some_iff] at h
              rcases h with ⟨behind, hskip, heq⟩
              obtain ⟨rfl, rfl⟩ := Prod.mk.inj heq
              rw [List.isPrefixOf_iff_prefix] at hno
              rcases hno with ⟨body, rfl⟩
              constructor
              · have hbody : body = name ++ behind := prefixSkip_some hskip
                rw [hbody]
                simp [spelled, no]
              · intro _
                simp_all [ArgparseOption.negatable]
            · exact absurd h (by simp)

theorem longRest_name {opt : ArgparseOption V} {name : Text}
    (hname : name ∈ opt.longName) (rest : Text) :
    longRest opt (name ++ rest) = some (false, rest) := by
  rw [longRest, show opt.longName = some name from hname]
  simp [prefixSkip_append]

/-- A flag is not found negated when its name begins as its own negation does. -/
theorem longRest_no {opt : ArgparseOption V} {name : Text}
    (hname : name ∈ opt.longName) (hneg : opt.negatable = true)
    (hpre : ¬ name <+: no ++ name) :
    longRest opt (no ++ name) = some (true, []) := by
  have hskip : prefixSkip (no ++ name) name = none := by
    rw [prefixSkip, if_neg (by rwa [List.isPrefixOf_iff_prefix])]
  have hdrop : prefixSkip ((no ++ name).drop 3) name = some [] := by
    change prefixSkip name name = some []
    simpa using prefixSkip_append name []
  rw [ArgparseOption.negatable, Bool.and_eq_true, Bool.not_eq_true'] at hneg
  rw [longRest, show opt.longName = some name from hname]
  simp only [Option.bind_eq_bind, Option.bind_some, hskip, hneg.1, hneg.2, hdrop]
  simp [no]

/-- No option of the table before it takes the word of an option. -/
theorem Apart.not_longRest {opt opt' : ArgparseOption V}
    (hapart : Apart opt' opt)
    (hplain' : ∀ name ∈ opt'.longName, '=' ∉ name)
    (unset' : Bool) (tail' : Text) {name tail : Text} {unset : Bool}
    (hname : name ∈ opt.longName) (hplain : '=' ∉ name)
    (htail : ValueTail tail) (htail' : ValueTail tail')
    (hneg : unset = true → opt.negatable = true)
    (h : longRest opt' (spelled unset name ++ tail) = some (unset', tail')) :
    False := by
  obtain ⟨name', hname', heq, hneg'⟩ := longRest_some h
  have hboth := spelled_eq (eq_not_mem_spelled hplain unset)
    (eq_not_mem_spelled (hplain' name' hname') unset') htail htail' heq
  obtain ⟨hne, hno', hno⟩ := hapart.2 name' hname' name hname
  cases unset with
  | false =>
      cases unset' with
      | false => exact hne hboth.symm
      | true => exact hno' (hneg' rfl) hboth
  | true =>
      cases unset' with
      | false => exact hno (hneg rfl) hboth.symm
      | true => exact hne (List.append_cancel_left hboth).symm

/-- A value behind `=` becomes the option's, and one that is left from before stays
when there is none. -/
def tailValue (tail : Text) (optvalue : Option Text) : Option Text :=
  match tail with
  | [] => optvalue
  | _ :: value => some value

theorem argparseLongOpt_found (getvalue : Getvalue V) (table : OptionTable V)
    {opt : ArgparseOption V} (hopt : opt ∈ table.options) {name tail : Text}
    {unset : Bool} (hname : name ∈ opt.longName) (htail : ValueTail tail)
    (hneg : unset = true → opt.negatable = true) {st : Argparse V}
    (hword : (st.word st.argv).drop 2 = spelled unset name ++ tail)
    (hrest : longRest opt (spelled unset name ++ tail) = some (unset, tail)) :
    argparseLongOpt getvalue table.options st =
      getvalue opt unset true
        { st with optvalue := tailValue tail st.optvalue } := by
  obtain ⟨before, behind, hsplit⟩ := List.append_of_mem hopt
  have hapart : ∀ opt' ∈ before, Apart opt' opt := by
    have hpairs := table.apart
    rw [hsplit, List.pairwise_append] at hpairs
    exact fun opt' hopt' => hpairs.2.2 opt' hopt' opt List.mem_cons_self
  have hplain : ∀ opt' ∈ before, ∀ name ∈ opt'.longName, '=' ∉ name := by
    intro opt' hopt'
    exact table.plain opt' (hsplit ▸ List.mem_append_left _ hopt')
  have hself := table.plain opt hopt name hname
  rw [hsplit]
  clear hsplit
  induction before with
  | nil =>
      rw [List.nil_append, argparseLongOpt, hword, hrest]
      rcases htail with rfl | ⟨value, rfl⟩
      · rfl
      · rfl
  | cons opt' before ih =>
      have hnot := fun unset' tail' htail' =>
        (hapart opt' List.mem_cons_self).not_longRest
          (hplain opt' List.mem_cons_self) unset' tail' hname hself htail htail' hneg
      rw [List.cons_append, argparseLongOpt, hword]
      split
      · rename_i hfound
        exact absurd hfound (hnot _ _ (Or.inl rfl))
      · rename_i hfound
        exact absurd hfound (hnot _ _ (Or.inr ⟨_, rfl⟩))
      · exact ih (fun o ho => hapart o (List.mem_cons_of_mem _ ho))
          fun o ho => hplain o (List.mem_cons_of_mem _ ho)

theorem argparseShortOpt_found {getvalue : Getvalue V} (table : OptionTable V)
    {opt : ArgparseOption V} (hopt : opt ∈ table.options)
    (hshort : opt.shortName ≠ '\x00') {st : Argparse V} {rest : Text}
    (hvalue : st.optvalue = some (opt.shortName :: rest)) :
    argparseShortOpt getvalue table.options st =
      getvalue opt false false
        { st with optvalue := if rest = [] then none else some rest } := by
  obtain ⟨before, behind, hsplit⟩ := List.append_of_mem hopt
  have hapart : ∀ opt' ∈ before, Apart opt' opt := by
    have hpairs := table.apart
    rw [hsplit, List.pairwise_append] at hpairs
    exact fun opt' hopt' => hpairs.2.2 opt' hopt' opt List.mem_cons_self
  rw [hsplit]
  clear hsplit
  induction before with
  | nil =>
      rw [List.nil_append, argparseShortOpt]
      simp [hvalue]
  | cons opt' before ih =>
      have hne : opt'.shortName ≠ opt.shortName := by
        intro heq
        have hnul := (hapart opt' List.mem_cons_self).1 heq
        exact hshort (heq ▸ hnul)
      rw [List.cons_append, argparseShortOpt]
      simp only [hvalue, Option.getD_some, List.headD_cons, hne, if_false]
      exact ih fun o ho => hapart o (List.mem_cons_of_mem _ ho)

end Argparse

end NtapiExamples
