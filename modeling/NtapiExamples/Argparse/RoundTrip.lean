/-
Command lines are read back: what is written with the names of a table gives the
variables the values that are written, and leaves the operands in their order.
-/
import NtapiExamples.Argparse.InPlace
import NtapiExamples.Argparse.Meaning
import NtapiExamples.Argparse.Table

namespace NtapiExamples

namespace Argparse

variable {V : Type}

/-- A value in the word of its option, or in a word of its own. -/
inductive Placed where
  | attached (value : Text)
  | apart (value : Text)

def Placed.value : Placed → Text
  | .attached value => value
  | .apart value => value

/-- What a command line is made of.  The letters of a word are flags, but the last
one may be an option with a value. -/
inductive Item (V : Type) where
  | operand (arg : Text)
  | flag (opt : ArgparseOption V) (unset : Bool)
  | long (opt : ArgparseOption V) (value : Placed)
  | letters (opts : List (ArgparseOption V)) (last : ArgparseOption V)
      (value : Option Placed)

def ArgparseOption.name (opt : ArgparseOption V) : Text := opt.longName.getD []

namespace Item

/-- The words of an item. -/
def render : Item V → List Text
  | operand arg => [arg]
  | flag opt unset => ['-' :: '-' :: spelled unset opt.name]
  | long opt (.attached value) => ['-' :: '-' :: (opt.name ++ '=' :: value)]
  | long opt (.apart value) => ['-' :: '-' :: opt.name, value]
  | letters opts last none =>
      ['-' :: (opts.map ArgparseOption.shortName ++ [last.shortName])]
  | letters opts last (some (.attached value)) =>
      ['-' :: (opts.map ArgparseOption.shortName ++ last.shortName :: value)]
  | letters opts last (some (.apart value)) =>
      ['-' :: (opts.map ArgparseOption.shortName ++ [last.shortName]), value]

def operands : Item V → List Text
  | operand arg => [arg]
  | flag _ _ => []
  | long _ _ => []
  | letters _ _ _ => []

/-- What an item does to the variables. -/
def apply (m : Meaning V) (values : Values V) : Item V → Values V
  | operand _ => values
  | flag opt unset => m.flag opt unset values
  | long opt value => m.value opt value.value values
  | letters opts last value =>
      let values := opts.foldl (fun values opt => m.flag opt false values) values
      match value with
      | none => m.flag last false values
      | some value => m.value last value.value values

end Item

/-- The option is in the table, and is a flag or not. -/
structure Listed (table : OptionTable V) (isFlag : Bool)
    (opt : ArgparseOption V) : Prop where
  mem : opt ∈ table.options
  stores : opt.Stores
  isFlag : opt.type.isFlag = isFlag

/-- The option has a name that is not empty. -/
def ArgparseOption.Long (opt : ArgparseOption V) : Prop :=
  opt.longName = some opt.name ∧ opt.name ≠ []

/-- The option has a letter. -/
def ArgparseOption.Short (opt : ArgparseOption V) : Prop :=
  opt.shortName ≠ '\x00' ∧ opt.shortName ≠ '-'

instance (opt : ArgparseOption V) : Decidable opt.Long :=
  inferInstanceAs (Decidable (_ ∧ _))

instance (opt : ArgparseOption V) : Decidable opt.Short :=
  inferInstanceAs (Decidable (_ ∧ _))

/-- Items that can be written with the options of a table. -/
def Item.Fine (m : Meaning V) (table : OptionTable V) : Item V → Prop
  | .operand arg => isOperand arg
  | .flag opt unset =>
      Listed table true opt ∧ opt.Long ∧
        (unset = true → opt.noneg = false ∧ ¬ opt.name <+: no ++ opt.name)
  | .long opt value =>
      Listed table false opt ∧ opt.Long ∧ m.isValue opt.type value.value
  | .letters opts last value =>
      (∀ opt ∈ opts, Listed table true opt ∧ opt.Short ∧ m.joins opt.type) ∧
        last.Short ∧
        match value with
        | none => Listed table true last
        | some value =>
            Listed table false last ∧ m.isValue last.type value.value ∧
              value ≠ .attached []

/-- Items that take no value and leave none: operands and flags. -/
def Item.Waiting (m : Meaning V) : Item V → Prop
  | .operand _ => True
  | .flag opt _ => m.joins opt.type
  | .long _ _ => False
  | .letters _ _ _ => False

/-- The loop comes from one state to the other. -/
def Leads (copy : Copy V) (options : List (ArgparseOption V))
    (st st' : Argparse V) : Prop :=
  ∀ words, st.argc ≤ words → ∃ words', st'.argc ≤ words' ∧
    parseLoop copy options false words st =
      parseLoop copy options false words' st'

section

variable {copy : Copy V} {options : List (ArgparseOption V)}

theorem Leads.rfl {st : Argparse V} : Leads copy options st st :=
  fun words hwords => ⟨words, hwords, Eq.refl _⟩

theorem Leads.trans {st st₁ st₂ : Argparse V}
    (h₁ : Leads copy options st st₁) (h₂ : Leads copy options st₁ st₂) :
    Leads copy options st st₂ := by
  intro words hwords
  obtain ⟨words₁, hwords₁, heq₁⟩ := h₁ words hwords
  obtain ⟨words₂, hwords₂, heq₂⟩ := h₂ words₁ hwords₁
  exact ⟨words₂, hwords₂, heq₁.trans heq₂⟩

theorem leads_of_round {st st' : Argparse V} (hless : st'.argc < st.argc)
    (hround : ∀ words, parseLoop copy options false (words + 1) st =
      parseLoop copy options false words st') :
    Leads copy options st st' := by
  intro words hwords
  cases words with
  | zero => omega
  | succ words => exact ⟨words, by omega, hround words⟩

theorem Shows.argc_ne {st : Argparse V} {kept rest : List Text} {arg : Text}
    (h : Shows st kept (arg :: rest)) : st.argc ≠ 0 := by
  rw [h.argc]
  exact Nat.succ_ne_zero _

theorem leads_operand {st : Argparse V} {kept rest : List Text} {arg : Text}
    (h : Shows st kept (arg :: rest)) (harg : isOperand arg) :
    ∃ st', Leads copy options st st' ∧ Shows st' (kept ++ [arg]) rest ∧
      st'.optvalue = st.optvalue ∧ st'.values = st.values := by
  refine ⟨_, leads_of_round ?_ ?_, h.keep, Eq.refl _, Eq.refl _⟩
  · exact Nat.sub_lt (Nat.pos_of_ne_zero h.argc_ne) Nat.one_pos
  · intro words
    have hoperand : (st.word st.argv).headD '\x00' ≠ '-' ∨
        (st.word st.argv).tail = [] := by
      rw [h.word]
      exact harg
    simp only [parseLoop, h.argc_ne, if_false, if_pos hoperand,
      Bool.false_eq_true]

/-- A word with a long option that is found. -/
theorem leads_long {st st₁ : Argparse V} {kept rest : List Text} {body : Text}
    (h : Shows st kept (('-' :: '-' :: body) :: rest)) (hbody : body ≠ [])
    (hopt : argparseLongOpt copy.getvalue options st = .ok (0, st₁))
    (hargc : st₁.argc ≤ st.argc) (hone : 0 < st₁.argc) :
    Leads copy options st st₁.next := by
  refine leads_of_round ?_ ?_
  · exact Nat.lt_of_lt_of_le (Nat.sub_lt hone Nat.one_pos) hargc
  · intro words
    simp only [parseLoop, h.argc_ne, h.word, if_false, List.headD_cons,
      List.tail_cons, ne_eq, not_true_eq_false, false_or, reduceCtorEq, hbody,
      hopt, bind, Except.bind]

/-- A word of letters. -/
theorem leads_short {st st₁ : Argparse V} {kept rest : List Text}
    {letters : Text} (h : Shows st kept (('-' :: letters) :: rest))
    (hne : letters ≠ []) (hhead : letters.headD '\x00' ≠ '-')
    (hopts : shortOpts copy options letters.length
      { st with optvalue := some letters } = .ok st₁)
    (hargc : st₁.argc ≤ st.argc) (hone : 0 < st₁.argc) :
    Leads copy options st st₁.next := by
  refine leads_of_round ?_ ?_
  · exact Nat.lt_of_lt_of_le (Nat.sub_lt hone Nat.one_pos) hargc
  · intro words
    simp only [parseLoop, h.argc_ne, h.word, if_false, List.headD_cons,
      List.tail_cons, ne_eq, not_true_eq_false, false_or, hne, hhead,
      not_false_eq_true, if_true, hopts, bind, Except.bind]

theorem shortOpts_none {letters : Nat} {st : Argparse V}
    (h : st.optvalue = none) : shortOpts copy options letters st = .ok st := by
  cases letters with
  | zero => rfl
  | succ letters => rw [shortOpts, if_pos h]

end

section

variable {copy : Copy V} {m : Meaning V} (hmeans : copy.Means m)
  {table : OptionTable V}

theorem shortOpts_found (letters : Nat) {st st₁ : Argparse V} {rest : Text}
    {opt : ArgparseOption V} (hopt : opt ∈ table.options) (hshort : opt.Short)
    (hvalue : st.optvalue = some (opt.shortName :: rest))
    (hget : copy.getvalue opt false false
      { st with optvalue := if rest = [] then none else some rest } =
        .ok (0, st₁)) :
    shortOpts copy table.options (letters + 1) st =
      shortOpts copy table.options letters st₁ := by
  rw [shortOpts, if_neg (by simp [hvalue]),
    argparseShortOpt_found table hopt hshort.1 hvalue, hget]
  rfl

theorem takeValue_apart {st : Argparse V} {kept rest : List Text}
    {arg value : Text} (h : Shows st kept (arg :: value :: rest))
    (hnone : st.optvalue = none) : st.takeValue = some (value, st.next) := by
  rw [Argparse.takeValue, hnone]
  have hargc : 1 < st.argc := by
    rw [h.argc]
    simp
  simp only [hargc, if_true, h.word_succ]

include hmeans

/-- The flags at the front of a word of letters. -/
theorem shortOpts_flags {opts : List (ArgparseOption V)}
    (hopts : ∀ opt ∈ opts,
      Listed table true opt ∧ opt.Short ∧ m.joins opt.type)
    (letters : Nat) (st : Argparse V) {rest : Text} (hrest : rest ≠ [])
    (hvalue : st.optvalue = some (opts.map ArgparseOption.shortName ++ rest)) :
    shortOpts copy table.options (opts.length + letters) st =
      shortOpts copy table.options letters
        { st with
          optvalue := some rest
          values :=
            opts.foldl (fun values opt => m.flag opt false values) st.values } := by
  induction opts generalizing st with
  | nil =>
      rw [List.map_nil, List.nil_append] at hvalue
      rw [List.length_nil, Nat.zero_add, List.foldl_nil, ← hvalue]
  | cons opt opts ih =>
      obtain ⟨hlisted, hshort, hjoins⟩ := hopts opt List.mem_cons_self
      have hget := hmeans.flag opt
        { st with
          optvalue := some (opts.map ArgparseOption.shortName ++ rest) }
        false false hlisted.stores hlisted.isFlag (Or.inl hjoins)
      have hround := shortOpts_found (opts.length + letters)
        hlisted.mem hshort hvalue (by rw [if_neg (by simp [hrest])]; exact hget)
      rw [List.length_cons, Nat.add_right_comm, hround]
      exact ih (fun o ho => hopts o (List.mem_cons_of_mem _ ho)) _ rfl

/-- The last letter is a flag. -/
theorem shortOpts_last_flag {letters : Nat} {st : Argparse V}
    {opt : ArgparseOption V} (hlisted : Listed table true opt)
    (hshort : opt.Short) (hvalue : st.optvalue = some [opt.shortName]) :
    shortOpts copy table.options (letters + 1) st =
      .ok { st with
        optvalue := none
        values := m.flag opt false st.values } := by
  have hget := hmeans.flag opt { st with optvalue := none } false false
    hlisted.stores hlisted.isFlag (Or.inr rfl)
  rw [shortOpts_found _ hlisted.mem hshort hvalue hget]
  exact shortOpts_none rfl

/-- The last letter is an option, and its value is behind it. -/
theorem shortOpts_last_attached {letters : Nat} {st : Argparse V}
    {opt : ArgparseOption V} {value : Text} (hlisted : Listed table false opt)
    (hshort : opt.Short) (htext : m.isValue opt.type value) (hne : value ≠ [])
    (hvalue : st.optvalue = some (opt.shortName :: value)) :
    shortOpts copy table.options (letters + 1) st =
      .ok { st with
        optvalue := none
        values := m.value opt value st.values } := by
  have hget := hmeans.value opt { st with optvalue := some value }
    false false hlisted.stores hlisted.isFlag htext rfl
  rw [shortOpts_found _ hlisted.mem hshort hvalue (by rw [if_neg hne]; exact hget)]
  exact shortOpts_none rfl

/-- The last letter is an option, and its value is the next word. -/
theorem shortOpts_last_apart {letters : Nat} {st : Argparse V}
    {opt : ArgparseOption V} {kept rest : List Text} {arg value : Text}
    (hlisted : Listed table false opt) (hshort : opt.Short)
    (htext : m.isValue opt.type value)
    (h : Shows st kept (arg :: value :: rest))
    (hvalue : st.optvalue = some [opt.shortName]) :
    shortOpts copy table.options (letters + 1) st =
      .ok { st.next with
        optvalue := none
        values := m.value opt value st.values } := by
  have hget := hmeans.value opt { st with optvalue := none } false false
    hlisted.stores hlisted.isFlag htext
    (takeValue_apart (h.withStore none _) rfl)
  rw [shortOpts_found _ hlisted.mem hshort hvalue hget]
  exact shortOpts_none rfl

omit hmeans in
/-- A word with the name of an option of the table. -/
theorem leads_named (unset : Bool) {st st₁ : Argparse V}
    {kept rest : List Text} {tail : Text} {opt : ArgparseOption V} (hopt : opt ∈ table.options)
    (hlong : opt.Long) (htail : ValueTail tail)
    (hneg : unset = true → opt.negatable = true)
    (hrest : longRest opt (spelled unset opt.name ++ tail) = some (unset, tail))
    (h : Shows st kept (('-' :: '-' :: (spelled unset opt.name ++ tail)) :: rest))
    (hget : copy.getvalue opt unset true
      { st with optvalue := tailValue tail st.optvalue } = .ok (0, st₁))
    (hargc : st₁.argc ≤ st.argc) (hone : 0 < st₁.argc) :
    Leads copy table.options st st₁.next := by
  have hname : opt.name ∈ opt.longName := hlong.1
  have hbody : spelled unset opt.name ++ tail ≠ [] := by
    cases unset <;> simp [spelled, no, hlong.2]
  have hfound := argparseLongOpt_found copy.getvalue table hopt
    hname htail hneg (by rw [h.word]; rfl) hrest
  exact leads_long h hbody (hfound.trans hget) hargc hone

/-- A flag leaves a value that has not been taken to the words behind it. -/
theorem leads_flag {st : Argparse V} {kept rest : List Text}
    {opt : ArgparseOption V} {unset : Bool}
    (hfine : (Item.flag opt unset).Fine m table)
    (hjoins : m.joins opt.type ∨ st.optvalue = none)
    (h : Shows st kept ((Item.flag opt unset).render ++ rest)) :
    ∃ st', Leads copy table.options st st' ∧ Shows st' kept rest ∧
      st'.optvalue = st.optvalue ∧
      st'.values = m.flag opt unset st.values := by
  obtain ⟨hlisted, hlong, hunset⟩ := hfine
  have hneg : unset = true → opt.negatable = true := by
    intro h
    simp [ArgparseOption.negatable, (hunset h).1, hlisted.isFlag]
  have hrest : longRest opt (spelled unset opt.name ++ []) = some (unset, []) := by
    cases unset with
    | false => exact longRest_name hlong.1 []
    | true =>
        rw [List.append_nil]
        exact longRest_no hlong.1 (hneg rfl) (hunset rfl).2
  have hget := hmeans.flag opt st unset true hlisted.stores hlisted.isFlag
    hjoins
  rw [Item.render, ← List.append_nil (spelled unset opt.name)] at h
  have hleads := leads_named unset hlisted.mem hlong (Or.inl rfl) hneg hrest h hget
    (Nat.le_refl _) (Nat.pos_of_ne_zero h.argc_ne)
  exact ⟨_, hleads, (h.withStore _ _).next, rfl, rfl⟩

/-- A value that stands behind a flag stays for the words behind it. -/
theorem leads_flag_value {st : Argparse V} {kept rest : List Text}
    {opt : ArgparseOption V} {value : Text} (hlisted : Listed table true opt)
    (hlong : opt.Long) (hjoins : m.joins opt.type)
    (h : Shows st kept (('-' :: '-' :: (opt.name ++ '=' :: value)) :: rest)) :
    ∃ st', Leads copy table.options st st' ∧ Shows st' kept rest ∧
      st'.optvalue = some value ∧
      st'.values = m.flag opt false st.values := by
  have hget := hmeans.flag opt { st with optvalue := some value } false true
    hlisted.stores hlisted.isFlag (Or.inl hjoins)
  have hleads := leads_named false hlisted.mem hlong
    (Or.inr ⟨value, rfl⟩) (by simp) (longRest_name hlong.1 _) h hget
    (Nat.le_refl _) (Nat.pos_of_ne_zero h.argc_ne)
  exact ⟨_, hleads, (h.withStore _ _).next, rfl, rfl⟩

/-- A long option with its value behind `=`. -/
theorem leads_attached {st : Argparse V} {kept rest : List Text}
    {opt : ArgparseOption V} {value : Text} (hlisted : Listed table false opt)
    (hlong : opt.Long) (htext : m.isValue opt.type value)
    (h : Shows st kept (('-' :: '-' :: (opt.name ++ '=' :: value)) :: rest)) :
    ∃ st', Leads copy table.options st st' ∧ Shows st' kept rest ∧
      st'.optvalue = none ∧ st'.values = m.value opt value st.values := by
  have hget := hmeans.value opt { st with optvalue := some value } false
    true hlisted.stores hlisted.isFlag htext rfl
  have hleads := leads_named false hlisted.mem hlong
    (Or.inr ⟨value, rfl⟩) (by simp) (longRest_name hlong.1 _) h hget
    (Nat.le_refl _) (Nat.pos_of_ne_zero h.argc_ne)
  exact ⟨_, hleads, (h.withStore _ _).next, rfl, rfl⟩

/-- A long option with its value in the next word. -/
theorem leads_apart {st : Argparse V} {kept rest : List Text}
    {opt : ArgparseOption V} {value : Text} (hlisted : Listed table false opt)
    (hlong : opt.Long) (htext : m.isValue opt.type value)
    (hnone : st.optvalue = none)
    (h : Shows st kept (('-' :: '-' :: opt.name) :: value :: rest)) :
    ∃ st', Leads copy table.options st st' ∧ Shows st' kept rest ∧
      st'.optvalue = none ∧ st'.values = m.value opt value st.values := by
  have hget := hmeans.value opt st false true hlisted.stores hlisted.isFlag
    htext (takeValue_apart h hnone)
  rw [← List.append_nil opt.name] at h
  have hleads := leads_named false hlisted.mem hlong (Or.inl rfl)
    (by simp) (longRest_name hlong.1 _) h hget (Nat.sub_le _ _)
    (Nat.pos_of_ne_zero h.next.argc_ne)
  exact ⟨_, hleads, (h.next.withStore _ _).next, hnone,
    rfl⟩

/-- A long option that finds a value left over takes it, and leaves the next word
alone. -/
theorem leads_leftover {st : Argparse V} {kept rest : List Text}
    {opt : ArgparseOption V} {value : Text} (hlisted : Listed table false opt)
    (hlong : opt.Long) (htext : m.isValue opt.type value)
    (hsome : st.optvalue = some value)
    (h : Shows st kept (('-' :: '-' :: opt.name) :: rest)) :
    ∃ st', Leads copy table.options st st' ∧ Shows st' kept rest ∧
      st'.optvalue = none ∧ st'.values = m.value opt value st.values := by
  have htake : st.takeValue = some (value, { st with optvalue := none }) := by
    rw [Argparse.takeValue, hsome]
  have hget := hmeans.value opt st false true hlisted.stores hlisted.isFlag htext htake
  rw [← List.append_nil opt.name] at h
  have hleads := leads_named false hlisted.mem hlong (Or.inl rfl)
    (by simp) (longRest_name hlong.1 _) h hget (Nat.le_refl _)
    (Nat.pos_of_ne_zero h.argc_ne)
  exact ⟨_, hleads, (h.withStore _ _).next, rfl, rfl⟩

/-- A word of letters, whatever has been left over before it. -/
theorem leads_letters {st : Argparse V} {kept rest : List Text}
    {opts : List (ArgparseOption V)} {last : ArgparseOption V}
    {value : Option Placed} (hfine : (Item.letters opts last value).Fine m table)
    (h : Shows st kept ((Item.letters opts last value).render ++ rest)) :
    ∃ st', Leads copy table.options st st' ∧ Shows st' kept rest ∧
      st'.optvalue = none ∧
      st'.values = (Item.letters opts last value).apply m st.values := by
  obtain ⟨hopts, hshort, hvalue⟩ := hfine
  have hhead : ∀ behind : Text,
      (opts.map ArgparseOption.shortName ++ last.shortName :: behind).headD
        '\x00' ≠ '-' := by
    intro behind
    cases opts with
    | nil => exact hshort.2
    | cons opt opts => exact (hopts opt List.mem_cons_self).2.1.2
  have hlength : ∀ behind : Text,
      (opts.map ArgparseOption.shortName ++ last.shortName :: behind).length =
        opts.length + (behind.length + 1) := by
    intro behind
    simp
  have hflags := fun behind : Text =>
    (congrArg (fun letters => shortOpts copy table.options letters _)
      (hlength behind)).trans
        (shortOpts_flags hmeans hopts (behind.length + 1)
          { st with
            optvalue := some
              (opts.map ArgparseOption.shortName ++ last.shortName :: behind) }
          (List.cons_ne_nil _ _) rfl)
  cases value with
  | none =>
      have hword := (hflags []).trans
        (shortOpts_last_flag hmeans hvalue hshort rfl)
      have hleads := leads_short h (by simp) (hhead [])
        hword (Nat.le_refl _)
        (Nat.pos_of_ne_zero h.argc_ne)
      exact ⟨_, hleads, (h.withStore _ _).next, rfl, rfl⟩
  | some placed =>
      obtain ⟨hlisted, htext, hne⟩ := hvalue
      cases placed with
      | attached value =>
          have hword := (hflags value).trans
            (shortOpts_last_attached hmeans hlisted hshort htext
              (fun hnil => hne (hnil ▸ rfl)) rfl)
          have hleads := leads_short h (by simp) (hhead value)
            hword (Nat.le_refl _)
            (Nat.pos_of_ne_zero h.argc_ne)
          exact ⟨_, hleads, (h.withStore _ _).next, rfl,
            rfl⟩
      | apart value =>
          have hword := (hflags []).trans
            (shortOpts_last_apart hmeans hlisted hshort htext
              (h.withStore _ _) rfl)
          have hleads := leads_short h (by simp) (hhead [])
            hword (Nat.sub_le _ _)
            (Nat.pos_of_ne_zero h.next.argc_ne)
          exact ⟨_, hleads,
            (h.next.withStore _ _).next, rfl, rfl⟩

theorem leads_item {item : Item V} (hfine : item.Fine m table)
    {st : Argparse V} {kept rest : List Text} (hnone : st.optvalue = none)
    (h : Shows st kept (item.render ++ rest)) :
    ∃ st', Leads copy table.options st st' ∧
      Shows st' (kept ++ item.operands) rest ∧ st'.optvalue = none ∧
      st'.values = item.apply m st.values := by
  cases item with
  | operand arg =>
      obtain ⟨st', hleads, hshows, hvalue, hvalues⟩ := leads_operand h hfine
      exact ⟨st', hleads, hshows, hvalue.trans hnone, hvalues⟩
  | flag opt unset =>
      obtain ⟨st', hleads, hshows, hvalue, hvalues⟩ :=
        leads_flag hmeans hfine (Or.inr hnone) h
      rw [Item.operands, List.append_nil]
      exact ⟨st', hleads, hshows, hvalue.trans hnone, hvalues⟩
  | long opt value =>
      obtain ⟨hlisted, hlong, htext⟩ := hfine
      rw [Item.operands, List.append_nil]
      cases value with
      | attached value => exact leads_attached hmeans hlisted hlong htext h
      | apart value => exact leads_apart hmeans hlisted hlong htext hnone h
  | letters opts last value =>
      rw [Item.operands, List.append_nil]
      exact leads_letters hmeans hfine h

/-- A stretch of items, with anything behind it. -/
theorem leads_items {items : List (Item V)}
    (hfine : ∀ item ∈ items, item.Fine m table) {st : Argparse V}
    {kept : List Text} (rest : List Text) (hnone : st.optvalue = none)
    (h : Shows st kept (items.flatMap Item.render ++ rest)) :
    ∃ st', Leads copy table.options st st' ∧
      Shows st' (kept ++ items.flatMap Item.operands) rest ∧
      st'.optvalue = none ∧ st'.values = items.foldl (Item.apply m) st.values := by
  induction items generalizing st kept with
  | nil => exact ⟨st, Leads.rfl, by simpa using h, hnone, rfl⟩
  | cons item items ih =>
      rw [List.flatMap_cons, List.append_assoc] at h
      obtain ⟨st₁, hleads₁, hshows₁, hnone₁, hvalues₁⟩ :=
        leads_item hmeans (hfine item List.mem_cons_self) hnone h
      obtain ⟨st₂, hleads₂, hshows₂, hnone₂, hvalues₂⟩ :=
        ih (fun i hi => hfine i (List.mem_cons_of_mem _ hi)) hnone₁ hshows₁
      refine ⟨st₂, hleads₁.trans hleads₂, ?_, hnone₂, ?_⟩
      · simpa using hshows₂
      · rw [hvalues₂, hvalues₁, List.foldl_cons]

/-- Operands and flags leave a value that has not been taken where it is. -/
theorem leads_waiting {items : List (Item V)}
    (hfine : ∀ item ∈ items, item.Fine m table)
    (hwaiting : ∀ item ∈ items, item.Waiting m) {st : Argparse V}
    {kept rest : List Text}
    (h : Shows st kept (items.flatMap Item.render ++ rest)) :
    ∃ st', Leads copy table.options st st' ∧
      Shows st' (kept ++ items.flatMap Item.operands) rest ∧
      st'.optvalue = st.optvalue ∧
      st'.values = items.foldl (Item.apply m) st.values := by
  induction items generalizing st kept with
  | nil => exact ⟨st, Leads.rfl, by simpa using h, rfl, rfl⟩
  | cons item items ih =>
      rw [List.flatMap_cons, List.append_assoc] at h
      have hfirst : ∃ st', Leads copy table.options st st' ∧
          Shows st' (kept ++ item.operands)
            (items.flatMap Item.render ++ rest) ∧
          st'.optvalue = st.optvalue ∧ st'.values = item.apply m st.values := by
        have hitem := hfine item List.mem_cons_self
        have hwait := hwaiting item List.mem_cons_self
        cases item with
        | operand arg => exact leads_operand h hitem
        | flag opt unset =>
            rw [Item.operands, List.append_nil]
            exact leads_flag hmeans hitem (Or.inl hwait) h
        | long opt value => exact hwait.elim
        | letters opts last value => exact hwait.elim
      obtain ⟨st₁, hleads₁, hshows₁, hvalue₁, hvalues₁⟩ := hfirst
      obtain ⟨st₂, hleads₂, hshows₂, hvalue₂, hvalues₂⟩ :=
        ih (fun i hi => hfine i (List.mem_cons_of_mem _ hi))
          (fun i hi => hwaiting i (List.mem_cons_of_mem _ hi)) hshows₁
      refine ⟨st₂, hleads₁.trans hleads₂, ?_, hvalue₂.trans hvalue₁, ?_⟩
      · simpa using hshows₂
      · rw [hvalues₂, hvalues₁, List.foldl_cons]

end

/-- What stands behind the items: nothing, or words that are not looked at. -/
def closing : Option (List Text) → List Text
  | none => []
  | some rest => ['-', '-'] :: rest

/-- Where the loop has come to when there is nothing more to read. -/
theorem argparseParse_of_leads {copy : Copy V}
    {options : List (ArgparseOption V)} {program : Text}
    {args kept : List Text} {values : Values V} {rest : Option (List Text)}
    {st : Argparse V}
    (hleads : Leads copy options
      ⟨args.length, 1, (program :: args).map some ++ [none], 0, none, values⟩ st)
    (h : Shows st kept (closing rest)) :
    ∃ n st', argparseParse copy options false program args values =
        .ok (n, st') ∧
      st'.values = st.values ∧ n = (kept ++ rest.getD []).length ∧
      st'.array.take (n + 1) = (kept ++ rest.getD []).map some ++ [none] := by
  obtain ⟨words, hwords, hloop⟩ := hleads args.length (Nat.le_refl _)
  have hlast : ∃ st₁, parseLoop copy options false words st = .ok st₁ ∧
      Shows st₁ kept (rest.getD []) ∧ st₁.values = st.values := by
    cases rest with
    | none =>
        refine ⟨st, ?_, h, rfl⟩
        cases words with
        | zero => rfl
        | succ words => simp only [parseLoop, h.argc, closing, List.length_nil, if_true]
    | some rest =>
        refine ⟨st.next, ?_, h.next, rfl⟩
        cases words with
        | zero => exact absurd (Nat.le_zero.mp hwords) h.argc_ne
        | succ words =>
            simp only [parseLoop, h.argc_ne, h.word, if_false, List.headD_cons,
              List.tail_cons, ne_eq, not_true_eq_false, false_or, reduceCtorEq,
              if_true]
  obtain ⟨st₁, hend, hshows, hvalues⟩ := hlast
  have hcount : st₁.cpidx + st₁.argc = (kept ++ rest.getD []).length := by
    rw [List.length_append, hshows.cpidx, hshows.argc]
  exact ⟨st₁.cpidx + st₁.argc,
    { st₁ with
      array := (memmove st₁.array st₁.cpidx st₁.argv st₁.argc).set
        (st₁.cpidx + st₁.argc) none },
    by rw [argparseParse, hloop, hend]; rfl, hvalues, hcount, hshows.finish⟩

section

variable [DecidableEq V]

end

end Argparse

end NtapiExamples
