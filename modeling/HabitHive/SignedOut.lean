import HabitHive.Accounts

/-!
# How the process ends on a device with several users

`Screen.fault` says how an event ends the process in the session of one
user.  On a device with several users there is one more way: after a
sign-out the screen goes on in the background, and its callbacks unwrap
`currentUser` while nobody is signed in.  `Screen.usesUser` reads off the
screen which events do so, and `crashed_eq_fault` is the result for every run.
-/

namespace HabitHive

open HabitCollection

/-! ## Colors -/

/-- A color that was chosen once is never taken back. -/
theorem color_handle {s : State} (h : s.sectionColor ≠ none) (e : Event) :
    (handle s e).sectionColor ≠ none := by
  by_cases hday : e.isDay = false
  · rcases (device_handle hday s).2.2 with hcolor | ⟨hcolor, _⟩
    · exact Option.isSome_iff_ne_none.mp hcolor
    · rwa [hcolor]
  · cases e with
    | nextDay => exact h
    | didSelectItemAt row menu =>
      rw [handle, (saved_didSelectItemAt row menu s).2.2.1]
      exact h
    | _ => exact absurd rfl hday

namespace Screen

theorem color_step {x : Screen} (h : x.session.sectionColor ≠ none) (e : ScreenEvent) :
    (x.step e).session.sectionColor ≠ none := by
  refine (step_covered x e).invariant (I := fun t => t.sectionColor ≠ none) (fun _ _ h => h)
    (fun t e _ h => ?_) h
  rw [HabitHive.step]
  split
  · exact color_handle h e
  · split
    · exact h
    · exact h

/-- In the background the event evaluates `currentUser`. -/
def usesUser (x : Screen) (e : ScreenEvent) : Bool :=
  x.writesNow e || ((x.taken e).any fun call => call.2 = .fetch) || x.readsTime e

end Screen

namespace World

/-- The fault in which an event ends the process. -/
def fault (w : World) : WorldEvent → Option Fault
  | .client k e => w.clients[k]?.bind fun c =>
      if w.Possible k e then
        if w.user = none ∧ c.screen.usesUser e = true then some .nilUnwrap else c.screen.fault e
      else none
  | _ => none

variable {w : World} {k : Nat} {c : Client} {e : ScreenEvent}

/-! ## One event of a client -/

/-- A write that has no account ends the process. -/
theorem issueAll_crashed (owner : Nat) (writes : Write → Option Nat) (ws : List Write) (w : World) :
    (issueAll owner writes ws w).crashed =
      if ∃ v ∈ ws, writes v = none then some .nilUnwrap else w.crashed := by
  induction ws generalizing w with
  | nil => simp [issueAll]
  | cons v vs ih =>
    rw [issueAll]
    split
    · next hnone => simp [hnone]
    · next account haccount =>
      rw [ih]
      simp [haccount]

/-- The store and the device do not say how an event ends. -/
theorem fault_load (ref : Option Nat) (x : Screen) : (w.load ref x).fault e = x.fault e := by
  cases e <;> rfl

theorem sound_load (ref : Option Nat) {x : Screen} (h : (w.load none x).Sound) :
    (w.load ref x).Sound :=
  ⟨⟨h.session.counter, h.session.chosen, h.session.opened⟩, h.ready, h.menu⟩

theorem readsTime_load (ref : Option Nat) (x : Screen) :
    (w.load ref x).readsTime e = x.readsTime e := by
  cases e <;> rfl

/-- What holds of the clients of a device, their references included. -/
structure Sound (w : World) : Prop where
  directed : w.Directed
  screens : w.crashed = none → ∀ c ∈ w.clients, (w.load none c.screen).Sound
  timeRefs : ∀ c ∈ w.clients, c.timeRefs.length = c.screen.reads.length

namespace Sound

theorem length_timeRefsKept (h : w.Sound) (hc : c ∈ w.clients) :
    (c.timeRefsKept e).length =
      ((c.screen.takenTime e).elim c.screen.reads c.screen.reads.eraseIdx).length := by
  rw [Client.timeRefsKept]
  cases c.screen.takenTime e with
  | none => exact h.timeRefs c hc
  | some i => simp [List.length_eraseIdx, h.timeRefs c hc]

/-- In the background the calls and reads that evaluate `currentUser` are
those of `usesUser`. -/
theorem takesUser (h : w.Sound) (hcrashed : w.crashed = none) (hc : c ∈ w.clients)
    (he : e.isBackground = true) :
    c.takesUser e (w.stepped c e) =
      (((c.screen.taken e).any fun call => call.2 = .fetch) || c.screen.readsTime e) := by
  have hrunning := h.directed.running hcrashed c hc
  obtain ⟨cbs, hcalls, _, hback⟩ :=
    stepped_turnover (w := w) hrunning (ScreenEvent.ne_relaunch (Or.inl he))
  have hreads := Screen.reads_background (x := w.load (c.reads w.user e) c.screen) hrunning he
  rw [readsTime_load] at hreads
  rw [Client.takesUser, Client.issued_eq (h.directed.refs c hc) hcalls, (hback he).2,
    h.length_timeRefsKept hc, stepped, hreads]
  congr 1
  cases c.screen.readsTime e <;> simp [load, Screen.takenTime]

/-- An event of a client ends the process as `fault` says. -/
theorem perform_crashed (h : w.Sound) (hcrashed : w.crashed = none) (hc : w.clients[k]? = some c)
    (hpossible : w.Possible k e) :
    (w.perform k c e).crashed =
      if w.user = none ∧ c.screen.usesUser e = true then some .nilUnwrap
      else c.screen.fault e := by
  have hmem := List.mem_of_getElem? hc
  have hrunning := h.directed.running hcrashed c hmem
  have hne := ScreenEvent.ne_relaunch (hpossible.imp_right fun hp => hp.2.2)
  have hends := Screen.ends_step (x := w.load (c.reads w.user e) c.screen)
    (sound_load _ (h.screens hcrashed c hmem)) hrunning hne
  have hfault : (w.stepped c e).session.crashed = c.screen.fault e :=
    hends.crashed.trans (fault_load _ _)
  obtain ⟨ws, _, hjournal⟩ := Screen.journal_step (w.load (c.reads w.user e) c.screen) e
  have hperform : (w.perform k c e).crashed =
      if w.user = none ∧ c.takesUser e (w.stepped c e) = true then some .nilUnwrap
      else if ∃ v ∈ ws, c.writes w.user e v = none then some .nilUnwrap
      else c.screen.fault e := by
    rw [perform,
      show (w.stepped c e).session.journal = c.screen.session.journal ++ ws from hjournal,
      List.drop_left]
    split
    · rfl
    · rw [issueAll_crashed, ← hfault]
      rfl
  rw [hperform]
  cases huser : w.user with
  | some user =>
    have hall : ¬∃ v ∈ ws, c.writes (some user) e v = none := by
      rintro ⟨v, _, hv⟩
      rw [← huser] at hv
      by_cases hfresh : Fresh (c.screen.taken e) v
      · rw [writes_of_fresh hfresh, huser] at hv
        contradiction
      · rw [writes_of_captured h.directed hmem hfresh] at hv
        contradiction
    rw [if_neg (by simp), if_neg hall, if_neg (by simp)]
  | none =>
    have hback : e.isBackground = true := hpossible.resolve_right fun hp => by
      simp [huser] at hp
    obtain ⟨ws', hjournal', hnow⟩ := stepped_writes (w := w) hrunning hback
    obtain rfl : ws = ws' := List.append_cancel_left (hjournal.symm.trans hjournal')
    have hlost : (∃ v ∈ ws, c.writes none e v = none) ↔ c.screen.writesNow e = true := by
      rw [← hnow, ← huser]
      refine exists_congr fun v => and_congr_right fun _ => ⟨fun hv => ?_, fun hv => ?_⟩
      · by_contra hfresh
        rw [writes_of_captured h.directed hmem hfresh, huser] at hv
        contradiction
      · rw [writes_of_fresh hv, huser]
    rw [h.takesUser hcrashed hmem hback]
    simp only [hlost, Screen.usesUser, true_and, Bool.or_eq_true]
    split_ifs <;> tauto

theorem newClient (w : World) (user : Nat) :
    (w.load none (w.newClient user).screen).Sound ∧
      (w.newClient user).timeRefs.length = (w.newClient user).screen.reads.length :=
  ⟨⟨⟨by simp [load, World.newClient, Device.signIn], by simp [load, World.newClient, Device.signIn],
    by simp [load, World.newClient, Device.signIn]⟩,
    fun c hc => by simp [load, World.newClient, Screen.Uses] at hc,
    fun c hc => by simp [load, World.newClient, Cell.menuOpen] at hc⟩, rfl⟩

/-- A device that keeps a color that was chosen. -/
theorem same {w' : World} (h : w.Sound) (hcrashed : w.crashed = none) (hdirected : w'.Directed)
    (hclients : w'.clients = w.clients)
    (hcolor : w.device.sectionColor ≠ none → w'.device.sectionColor ≠ none) : w'.Sound where
  directed := hdirected
  screens _ c hc := by
    have hc := h.screens hcrashed c (hclients ▸ hc)
    exact ⟨⟨hc.session.counter, hc.session.chosen, fun form hform =>
      (hc.session.opened form hform).imp_right hcolor⟩, hc.ready, hc.menu⟩
  timeRefs := hclients ▸ h.timeRefs

theorem transitionToHome (h : w.Sound) (user : Nat) : (w.transitionToHome user).Sound where
  directed := directed_transitionToHome h.directed user
  screens hcrashed c hc := by
    rcases List.mem_append.mp hc with hc | hc
    · have hold := h.screens hcrashed c hc
      exact ⟨⟨hold.session.counter, hold.session.chosen, hold.session.opened⟩, hold.ready,
        hold.menu⟩
    · obtain rfl := List.mem_singleton.mp hc
      have hnew := (newClient w user).1
      exact ⟨⟨hnew.session.counter, hnew.session.chosen, hnew.session.opened⟩, hnew.ready,
        hnew.menu⟩
  timeRefs c hc := by
    rcases List.mem_append.mp hc with hc | hc
    · exact h.timeRefs c hc
    · obtain rfl := List.mem_singleton.mp hc
      exact (newClient w user).2

theorem relaunch (w : World) : w.relaunch.Sound where
  directed := directed_relaunch w
  screens _ c hc := by
    obtain ⟨user, _, rfl⟩ := List.mem_map.mp hc
    have hnew := (newClient w user).1
    exact ⟨⟨hnew.session.counter, hnew.session.chosen, hnew.session.opened⟩, hnew.ready, hnew.menu⟩
  timeRefs c hc := by
    obtain ⟨user, _, rfl⟩ := List.mem_map.mp hc
    exact (newClient w user).2

theorem perform (h : w.Sound) (hcrashed : w.crashed = none) (hc : w.clients[k]? = some c)
    (hpossible : w.Possible k e) : (w.perform k c e).Sound := by
  have hmem := List.mem_of_getElem? hc
  have hrunning := h.directed.running hcrashed c hmem
  have hne := ScreenEvent.ne_relaunch (hpossible.imp_right fun hp => hp.2.2)
  obtain ⟨hclients, huser, hdevice, _, hcrash⟩ :=
    perform_frame (w := w) (k := k) (c := c) (e := e)
  have hcolor : w.device.sectionColor ≠ none → (w.perform k c e).device.sectionColor ≠ none := by
    intro hcolor
    rw [hdevice]
    exact Screen.color_step (x := w.load (c.reads w.user e) c.screen) hcolor e
  refine ⟨directed_perform h.directed hcrashed hc hpossible, fun hnone d hd => ?_, fun d hd => ?_⟩
  · rw [hclients] at hd
    rcases List.mem_or_eq_of_mem_set hd with hd | rfl
    · have hold := h.screens hcrashed d hd
      exact ⟨⟨hold.session.counter, hold.session.chosen, fun form hform =>
        (hold.session.opened form hform).imp_right hcolor⟩, hold.ready, hold.menu⟩
    · have hx := sound_load (c.reads w.user e) (h.screens hcrashed c hmem)
      have hends := Screen.ends_step hx hrunning hne
      have hsession : (w.stepped c e).session.Sound :=
        (Screen.step_covered (w.load (c.reads w.user e) c.screen) e).invariant
          (fun _ f hs => hs.crash f) (fun _ e' _ hs => hs.step e') hx.session
      have hnew := (hends.upholds (hends.crashed.symm.trans (hcrash hnone))).sound hx hsession
      refine ⟨⟨hnew.session.counter, hnew.session.chosen, fun form hform => ?_⟩, hnew.ready,
        hnew.menu⟩
      refine (hnew.session.opened form hform).imp_right fun hcolor => ?_
      rw [load, hdevice]
      exact hcolor
  · rw [hclients] at hd
    rcases List.mem_or_eq_of_mem_set hd with hd | rfl
    · exact h.timeRefs d hd
    · have hreads := Screen.reads_step (x := w.load (c.reads w.user e) c.screen) hrunning hne
      rw [Client.after, List.length_append, List.length_replicate, h.length_timeRefsKept hmem]
      exact Nat.add_sub_cancel' hreads

end Sound

/-! ## Runs -/

theorem sound_step (h : w.Sound) (e : WorldEvent) : (w.step e).Sound := by
  have hdirected := directed_step h.directed e
  rw [step] at hdirected ⊢
  split
  · next hcrashed =>
    rw [if_pos hcrashed] at hdirected
    cases e with
    | loginTapped user =>
      rw [handle, loginTapped]
      split
      · exact h.transitionToHome user
      · exact h
    | signUpTapped user =>
      rw [handle, signUpTapped]
      split
      · refine Sound.transitionToHome (w := w.createUser user) (h.same hcrashed ?_ rfl ?_) user
        · exact ⟨h.directed.running, h.directed.refs, h.directed.current⟩
        · simp [createUser]
      · exact h
    | signOutButtonTapped => exact h.same hcrashed hdirected rfl id
    | relaunch => exact .relaunch w
    | nextDay => exact h.same hcrashed hdirected rfl id
    | client k e =>
      rcases client_cases w k e with ⟨hw, _⟩ | ⟨c, hc, hpossible, hw⟩ <;> rw [handle, hw]
      · exact h
      · exact h.perform hcrashed hc hpossible
  · split
    · exact .relaunch w
    · exact h

theorem fault_step (h : w.Sound) (hcrashed : w.crashed = none) (e : WorldEvent) :
    (w.step e).crashed = w.fault e := by
  rw [step, if_pos hcrashed]
  cases e with
  | loginTapped user =>
    rw [handle, loginTapped]
    split <;> exact hcrashed
  | signUpTapped user =>
    rw [handle, signUpTapped]
    split <;> exact hcrashed
  | signOutButtonTapped => exact hcrashed
  | relaunch => rfl
  | nextDay => exact hcrashed
  | client k e =>
    rw [handle, fault]
    rcases client_cases w k e with ⟨hw, hnot⟩ | ⟨c, hc, hpossible, hw⟩ <;> rw [hw]
    · cases hc : w.clients[k]? with
      | none => exact hcrashed
      | some c => rw [Option.bind_some, if_neg (hnot c hc), hcrashed]
    · rw [hc, Option.bind_some, if_pos hpossible]
      exact h.perform_crashed hcrashed hc hpossible

/-- The faults that a device has met. -/
def Met (w : World) : Prop := ∀ f ∈ w.crashed,
  f = .indexOutOfRange ∨ f = .forcedCast ∨ f = .nilUnwrap ∧ w.user = none

theorem met_of_running (hcrashed : w.crashed = none) : w.Met := by
  simp [Met, hcrashed]

theorem met_fault (w : World) (k : Nat) (e : ScreenEvent) :
    ∀ f ∈ w.fault (.client k e),
      f = .indexOutOfRange ∨ f = .forcedCast ∨ f = .nilUnwrap ∧ w.user = none := by
  intro f hf
  rw [fault, Option.mem_def, Option.bind_eq_some_iff] at hf
  obtain ⟨c, _, hf⟩ := hf
  split at hf
  · split at hf
    · next hout => exact Or.inr (Or.inr ⟨(Option.some.inj hf).symm, hout.1⟩)
    · exact (Screen.Met.screen c.screen e f hf).imp_right Or.inl
  · contradiction

theorem met_step (h : w.Sound) (hmet : w.Met) (e : WorldEvent) : (w.step e).Met := by
  by_cases hcrashed : w.crashed = none
  · intro f hf
    rw [fault_step h hcrashed e] at hf
    cases e with
    | client k e =>
      have huser : (w.step (.client k e)).user = w.user := by
        rw [step, if_pos hcrashed, handle]
        rcases client_cases w k e with ⟨hw, _⟩ | ⟨c, _, _, hw⟩ <;> rw [hw]
        exact perform_frame.2.1
      rw [huser]
      exact met_fault w k e f hf
    | _ => contradiction
  · rw [step, if_neg hcrashed]
    split
    · exact met_of_running rfl
    · exact hmet

/-- In a run of any number of users on one device, `fault` says which event
ends the process, and how.  The unwrap of `currentUser` does so while nobody
is signed in.  Besides, of the faults of the source, there are an index out of
range and the cast of a missing document. -/
theorem crashed_eq_fault (accounts : Nat → Option Store) (device : Device) (nextIdent : Nat)
    (es : List WorldEvent) :
    let w := run (opened accounts device nextIdent) es
    (w.crashed = none → ∀ e, (w.step e).crashed = w.fault e) ∧ w.Met := by
  have hstart : Sound (opened accounts device nextIdent) :=
    ⟨⟨fun _ => by simp [opened], by simp [opened], by simp [opened]⟩, by simp [opened],
      by simp [opened]⟩
  obtain ⟨hsound, hmet⟩ := Runs.run_invariant (I := fun w : World => w.Sound ∧ w.Met)
    (fun w e h _ => ⟨sound_step h.1 e, met_step h.1 h.2 e⟩) (Runs.guarded_true _ es)
    ⟨hstart, met_of_running rfl⟩
  exact ⟨fun hcrashed e => fault_step hsound hcrashed e, hmet⟩

/-- The user signs out before the refresh after a delete has begun, and the
block that begins it ends the process. -/
example :
    let w := run (opened twoUsers { today := 0 } 4) (.loginTapped 0 :: deletesFirst 0 ++
      [.client 0 (.session (.deliver 0)), .client 0 (.session (.deliver 0)), .signOutButtonTapped])
    w.fault (.client 0 (.session (.deliver 0))) = some .nilUnwrap := by
  decide +kernel

end World

end HabitHive
