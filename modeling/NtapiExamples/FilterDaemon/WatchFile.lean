/-
`watchFile` and `readFile` in the main loop of the daemon, while the filter file
is edited.  The file exists (`open` creates it), so `stat` always succeeds, and
what `readFile` reads is the whole file at one moment.
-/
import NtapiExamples.Lib.Run
import NtapiExamples.Lib.Text

namespace NtapiExamples

namespace FilterDaemon

/-- The fields of `struct tm` that `watchFile` compares. -/
structure Tm where
  sec : Int
  min : Int
  hour : Int
  yday : Int
  year : Int
deriving DecidableEq

/-- An edit of the file: its time in nanoseconds, and how far the daemon was. -/
structure Edit where
  content : Text
  time : Int
  prevTime : Tm
  reading : Bool
  lastRead : Option Text

/-- The daemon polls, has seen a change and is about to read the file, or has
read it and applies the filters. -/
inductive Phase where
  | watching
  | reading
  | applying
deriving DecidableEq

/-- The file and the daemon.  `lastRead` is what `readFile` read last; `edit`
and `polled` record the last edit and whether there was a poll since. -/
structure Watch where
  content : Text
  mtime : Int
  applicationRunning : Bool
  prevTime : Tm
  phase : Phase
  lastRead : Option Text
  edit : Edit
  polled : Bool

/-- The file is edited at some time, `watchFile` takes one turn of its loop,
`readFile` reads, `process` ends, or the daemon is told to stop. -/
inductive WatchAction where
  | modify (content : Text) (time : Int)
  | poll
  | read
  | finish
  | stop

section

variable (localtime : Int → Tm)

/-- `localtime` of `st_mtime`, which has whole seconds. -/
def Watch.fileTime (s : Watch) : Tm := localtime (s.mtime / 10 ^ 9)

def watchStep (s : Watch) : WatchAction → Option Watch
  | .modify content time =>
      some { s with
        content := content
        mtime := time
        edit :=
          { content := content
            time := time
            prevTime := s.prevTime
            reading := decide (s.phase = .reading)
            lastRead := s.lastRead }
        polled := false }
  | .poll =>
      if s.applicationRunning ∧ s.phase = .watching then
        if s.fileTime localtime ≠ s.prevTime then
          some { s with
            prevTime := s.fileTime localtime
            phase := .reading
            polled := true }
        else some { s with polled := true }
      else none
  | .read =>
      if s.phase = .reading then
        some { s with phase := .applying, lastRead := some s.content }
      else none
  | .finish =>
      if s.phase = .applying then some { s with phase := .watching } else none
  | .stop => some { s with applicationRunning := false }

/-- The daemon at its start, with a file of some age. -/
def watchStart (content : Text) (mtime : Int) : Watch where
  content := content
  mtime := mtime
  applicationRunning := true
  prevTime := ⟨0, 0, 0, 0, 0⟩
  phase := .watching
  lastRead := none
  edit := ⟨content, mtime, ⟨0, 0, 0, 0, 0⟩, false, none⟩
  polled := false

/-- The broken-down time of the edit is not the remembered one, or a change has
been seen and not been read yet, or the edit restores what was read last. -/
def Edit.Noticeable (e : Edit) : Prop :=
  localtime (e.time / 10 ^ 9) ≠ e.prevTime ∨ e.reading = true ∨
    e.lastRead = some e.content

/-- The remembered time before and after the first poll behind the last edit,
and what has been read in each case. -/
structure WatchInv (s : Watch) : Prop where
  content : s.edit.content = s.content
  time : s.edit.time = s.mtime
  unpolled : s.polled = false → s.prevTime = s.edit.prevTime
  polled : s.polled = true → s.prevTime = s.fileTime localtime
  seen : s.edit.reading = true ∨
      s.polled = true ∧ s.fileTime localtime ≠ s.edit.prevTime →
    s.phase = .reading ∨ s.lastRead = some s.content
  unseen : s.edit.reading = false →
      s.polled = false ∨ s.fileTime localtime = s.edit.prevTime →
    s.lastRead = s.edit.lastRead ∧ s.phase ≠ .reading

variable {localtime} {s s' : Watch}

theorem watchInv_start (content : Text) (mtime : Int) :
    WatchInv localtime (watchStart content mtime) where
  content := rfl
  time := rfl
  unpolled := fun _ => rfl
  polled := fun h => Bool.noConfusion h
  seen := fun h => h.elim (fun h => Bool.noConfusion h)
    fun h => Bool.noConfusion h.1
  unseen := fun _ _ => ⟨rfl, nofun⟩

theorem watchInv_modify (content : Text) (time : Int)
    (hstep : watchStep localtime s (.modify content time) = some s') :
    WatchInv localtime s' := by
  cases hstep
  exact {
    content := rfl
    time := rfl
    unpolled := fun _ => rfl
    polled := fun h => Bool.noConfusion h
    seen := fun h => h.elim (fun h => Or.inl (of_decide_eq_true h))
      fun h => Bool.noConfusion h.1
    unseen := fun h _ => ⟨rfl, of_decide_eq_false h⟩ }

theorem watchInv_poll (hinv : WatchInv localtime s)
    (hstep : watchStep localtime s .poll = some s') :
    WatchInv localtime s' := by
  simp only [watchStep] at hstep
  split at hstep
  case isFalse => exact absurd hstep nofun
  case isTrue hrun =>
    obtain ⟨_, hphase⟩ := hrun
    split at hstep
    case isTrue hchanged =>
      cases hstep
      refine ⟨hinv.content, hinv.time, nofun, fun _ => rfl,
        fun _ => Or.inl rfl, fun hreading hold => ?_⟩
      -- the change is against the time the edit found, or was seen before
      have hsame : s.fileTime localtime = s.edit.prevTime :=
        hold.resolve_left nofun
      cases hpolled : s.polled with
      | false =>
          rw [hinv.unpolled hpolled] at hchanged
          exact absurd hsame hchanged
      | true => exact absurd (hinv.polled hpolled).symm hchanged
    case isFalse hchanged =>
      cases hstep
      have hsame : s.prevTime = s.fileTime localtime :=
        (not_not.mp hchanged).symm
      refine ⟨hinv.content, hinv.time, nofun, fun _ => hsame,
        fun hseen => ?_, fun hreading hold => ?_⟩
      · refine hinv.seen (hseen.imp_right fun hseen => ?_)
        cases hpolled : s.polled with
        | false =>
            rw [← hinv.unpolled hpolled] at hseen
            exact absurd hsame.symm hseen.2
        | true => exact ⟨rfl, hseen.2⟩
      · exact hinv.unseen hreading (Or.inr (hold.resolve_left nofun))

theorem watchInv_step (hinv : WatchInv localtime s) {a : WatchAction}
    (hstep : watchStep localtime s a = some s') : WatchInv localtime s' := by
  cases a with
  | modify content time => exact watchInv_modify content time hstep
  | poll => exact watchInv_poll hinv hstep
  | read =>
      simp only [watchStep] at hstep
      split at hstep
      case isFalse => exact absurd hstep nofun
      case isTrue hphase =>
        cases hstep
        refine ⟨hinv.content, hinv.time, hinv.unpolled, hinv.polled,
          fun _ => Or.inr rfl, fun hreading hold => ?_⟩
        exact absurd hphase (hinv.unseen hreading hold).2
  | finish =>
      simp only [watchStep] at hstep
      split at hstep
      case isFalse => exact absurd hstep nofun
      case isTrue hphase =>
        cases hstep
        refine ⟨hinv.content, hinv.time, hinv.unpolled, hinv.polled,
          fun hseen => ?_, fun hreading hold =>
            ⟨(hinv.unseen hreading hold).1, nofun⟩⟩
        rcases hinv.seen hseen with hreading | hread
        · rw [hphase] at hreading
          exact absurd hreading nofun
        · exact Or.inr hread
  | stop =>
      cases hstep
      exact ⟨hinv.content, hinv.time, hinv.unpolled, hinv.polled, hinv.seen,
        hinv.unseen⟩

theorem watchInv_of_run {content : Text} {mtime : Int}
    (hrun : Run (watchStep localtime) anyStep (watchStart content mtime) s) :
    WatchInv localtime s :=
  hrun.invariant (watchInv_start content mtime)
    fun hinv _ hnext => watchInv_step hinv hnext

/-- A poll has seen the last edit and `process` is over: the daemon has read
what is in the file exactly when the edit could be noticed. -/
theorem lastRead_iff_noticeable {content : Text} {mtime : Int}
    (hrun : Run (watchStep localtime) anyStep (watchStart content mtime) s)
    (hpolled : s.polled = true) (hphase : s.phase = .watching) :
    s.lastRead = some s.content ↔ s.edit.Noticeable localtime := by
  have hinv := watchInv_of_run hrun
  have hedit : localtime (s.edit.time / 10 ^ 9) = s.fileTime localtime := by
    rw [Watch.fileTime, hinv.time]
  rw [Edit.Noticeable, hedit, hinv.content]
  by_cases hseen : s.edit.reading = true ∨
      s.fileTime localtime ≠ s.edit.prevTime
  · have hread : s.lastRead = some s.content := by
      have hnext := hinv.seen (hseen.imp_right fun hne => ⟨hpolled, hne⟩)
      exact hnext.resolve_left fun hreading => by
        rw [hphase] at hreading
        exact absurd hreading nofun
    exact iff_of_true hread (hseen.elim (fun h => Or.inr (Or.inl h)) Or.inl)
  · obtain ⟨hreading, hsame⟩ := not_or.mp hseen
    have hlast := (hinv.unseen (Bool.eq_false_iff.mpr hreading)
      (Or.inr (not_not.mp hsame))).1
    rw [hlast]
    constructor
    · exact fun hread => Or.inr (Or.inr hread)
    · exact fun h => (h.resolve_left hsame).resolve_left hreading

end

/-- `localtime` in the first year of the epoch, in UTC. -/
def localtime1970 (t : Int) : Tm :=
  ⟨t % 60, t / 60 % 60, t / 3600 % 24, t / 86400, 70⟩

def oneAddress : Text := "10.0.0.1\n".toList

def twoAddresses : Text := "10.0.0.1\n10.0.0.2\n".toList

/-- An edit in the next second, although `process` was not over, is read. -/
theorem lastRead_iff_noticeable_next : ∃ s,
    Run (watchStep localtime1970) anyStep
      (watchStart oneAddress 5100000000) s ∧
    s.content = twoAddresses ∧ s.lastRead = some twoAddresses := by
  have hrun : (exec (watchStep localtime1970)
      (watchStart oneAddress 5100000000)
      [.poll, .read, .modify twoAddresses 6200000000, .finish, .poll, .read,
        .finish]).map (fun s => (s.content, s.polled, s.phase, s.edit.time,
          s.edit.prevTime)) =
      some (twoAddresses, true, .watching, 6200000000, localtime1970 5) := by
    decide +kernel
  simp only [Option.map_eq_some_iff, Prod.mk.injEq] at hrun
  obtain ⟨s, hexec, hcontent, hpolled, hphase, htime, hprev⟩ := hrun
  have hrun := run_of_exec _ hexec
  have hread := (lastRead_iff_noticeable hrun hpolled hphase).mpr
    (Or.inl (by rw [htime, hprev]; decide))
  exact ⟨s, hrun, hcontent, hcontent ▸ hread⟩

/-- An edit in the second of the one before, after that was read: the daemon
polls on and never reads it. -/
theorem lastRead_stale : ∃ s,
    Run (watchStep localtime1970) anyStep
      (watchStart oneAddress 5100000000) s ∧
    s.edit.time = 5600000000 ∧ s.polled = true ∧ s.phase = .watching ∧
    s.lastRead = some oneAddress ∧ s.lastRead ≠ some s.content := by
  have hrun : (exec (watchStep localtime1970)
      (watchStart oneAddress 5100000000)
      [.poll, .read, .finish, .modify twoAddresses 5600000000, .poll,
        .poll]).map (fun s => ((s.edit.time, s.polled, s.phase),
          s.content, s.lastRead)) =
      some ((5600000000, true, .watching), twoAddresses, some oneAddress) := by
    decide +kernel
  simp only [Option.map_eq_some_iff, Prod.mk.injEq] at hrun
  obtain ⟨s, hexec, ⟨htime, hpolled, hphase⟩, hcontent, hread⟩ := hrun
  refine ⟨s, run_of_exec _ hexec, htime, hpolled, hphase, hread, ?_⟩
  rw [hread, hcontent]
  decide

end FilterDaemon

end NtapiExamples
