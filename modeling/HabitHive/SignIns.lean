import HabitHive.Lineage
import HabitHive.ScreenCore

/-!
# A session after other users

A user signs in on a device that others have used before.  `Screen.alone` is
the session that nobody disturbs, and `alone_step` says that the session of
the user is one if only refreshes are under way on the screens of those
before: then it depends on the past through the saved day and the chosen
color only.

Two such sessions on devices with different pasts take the same actions, which
`own` observes.  By `Screen.Alike` they write the same `dayValues` if the
saved day is today on both devices or on neither.  `dayWrites_eq_iff` also
says that nothing less will do.
-/

namespace HabitHive

/-! ## A session on its own -/

namespace Screen

/-- What an event makes of a screen and of all that was written since the
sign-in.  A launch starts with a new screen. -/
def alone (z : Screen × List Write) (e : ScreenEvent) : Screen × List Write :=
  if e = .session .relaunch then ({ session := z.1.session.started }, z.2)
  else (z.1.step e, z.2 ++ (z.1.step e).session.journal.drop z.1.session.journal.length)

/-- Two sessions that write the same values. -/
structure AlikeAlone (z z' : Screen × List Write) : Prop where
  sound : SoundDevice z.1.session
  sound' : SoundDevice z'.1.session
  screen : Alike z.1 z'.1
  written : z.2.map Write.core = z'.2.map Write.core

theorem AlikeAlone.step {z z' : Screen × List Write} (h : AlikeAlone z z') (e : ScreenEvent) :
    AlikeAlone (alone z e) (alone z' e) := by
  have hjournal : ∀ {x y : Screen}, Alike x y →
      x.session.journal.map Write.core = y.session.journal.map Write.core := fun h => by
    simpa using congrArg State.journal h.session.core
  rw [alone, alone]
  split
  · exact ⟨⟨h.sound.saved, by simp [State.started, State.relaunch]⟩,
      ⟨h.sound'.saved, by simp [State.started, State.relaunch]⟩,
      ⟨congrArg (fun s => ({ session := s } : Screen))
        (congrArg State.started h.screen.session.core), h.screen.savedToday⟩, h.written⟩
  · have hstep := h.screen.step h.sound h.sound' e
    refine ⟨soundDevice_step h.sound e, soundDevice_step h.sound' e, hstep, ?_⟩
    have hlength : z.1.session.journal.length = z'.1.session.journal.length := by
      simpa using congrArg List.length (hjournal h.screen)
    rw [List.map_append, List.map_append, h.written, List.map_drop, List.map_drop, hjournal hstep,
      hlength]

theorem AlikeAlone.run {z z' : Screen × List Write} (h : AlikeAlone z z') (es : List ScreenEvent) :
    AlikeAlone (Runs.run alone z es) (Runs.run alone z' es) := by
  induction es generalizing z z' with
  | nil => exact h
  | cons e es ih => exact ih (h.step e)

end Screen

namespace World

/-! ## The user who is signed in -/

/-- What happens on the screen of the user who is signed in, and to the
clock. -/
def own (w : World) : WorldEvent → List ScreenEvent
  | .client k e =>
      if w.crashed = none ∧ k + 1 = w.clients.length ∧ e.isShared = false then [e] else []
  | .relaunch => [.session .relaunch]
  | .nextDay => if w.crashed = none then [.session .nextDay] else []
  | .loginTapped _ | .signUpTapped _ | .signOutButtonTapped => []

/-- The last client of `w` is the session `z` alone, which has written what
the log has gained. -/
structure Alone (accounts : Nat → Option Store) (sent : List Issued) (user : Nat)
    (z : Screen × List Write) (w : World) : Prop where
  apart : Apart (fun _ _ => True) accounts w
  signed : w.user = some user
  screen : ∃ c ∈ w.clients.getLast?, w.load (some user) c.screen = z.1
  log : w.log = sent ++ z.2.map (Issued.mk user user)

variable {accounts : Nat → Option Store} {sent : List Issued} {user : Nat} {w : World}
  {z : Screen × List Write}

theorem alone_client (h : Alone accounts sent user z w) (hcrashed : w.crashed = none) {k : Nat}
    {c : Client} {e : ScreenEvent} (hc : w.clients[k]? = some c) (hpossible : w.Possible k e)
    (hapart : Apart (fun _ _ => True) accounts (w.perform k c e)) :
    Alone accounts sent user (Runs.run Screen.alone z (w.own (.client k e))) (w.perform k c e) := by
  obtain ⟨hclients, huser, _⟩ := perform_frame (w := w) (k := k) (c := c) (e := e)
  obtain ⟨d, hd, hscreen⟩ := h.screen
  have hk : k < w.clients.length := (List.getElem?_eq_some_iff.mp hc).1
  have hrunning := h.apart.directed.running hcrashed c (List.mem_of_getElem? hc)
  have hnot : e.isShared = false := by
    rcases hpossible with hback | hp
    · cases e with
      | session e => cases e <;> first | rfl | contradiction
      | _ => rfl
    · exact hp.2.2
  by_cases hlast : k + 1 = w.clients.length
  · -- the user's own screen
    have hcd : d = c := by
      rw [Option.mem_def, List.getLast?_eq_getElem?, ← hlast, Nat.add_sub_cancel, hc,
        Option.some.injEq] at hd
      exact hd.symm
    subst d
    obtain ⟨d, hd', hown⟩ := h.apart.current user h.signed
    obtain rfl : c = d := Option.some.inj (hd.symm.trans hd')
    obtain ⟨hstepped, hloaded, ws, hjournal, _, hlog⟩ := hown.stepped (k := k) (e := e) h.signed
    have hne : e ≠ .session .relaunch := by
      rintro rfl
      contradiction
    rw [own, if_pos ⟨hcrashed, hlast, hnot⟩, Runs.run_cons, Runs.run_nil, Screen.alone, if_neg hne,
      ← hscreen, ← hstepped]
    refine ⟨hapart, huser.trans h.signed, ⟨_, by rw [hclients, getLast?_set hk, if_pos hlast]; rfl,
      hloaded⟩, ?_⟩
    have hdrop : (w.stepped c e).session.journal.drop
        (w.load (some user) c.screen).session.journal.length = ws := by
      rw [hjournal]
      exact List.drop_left
    rw [hlog, h.log, hdrop, List.map_append, List.append_assoc]
  · -- a passive screen in the background
    have hback : w.user.isSome = true → k + 1 ≠ w.clients.length := fun _ => hlast
    have he : e.isBackground = true := hpossible.resolve_right fun hp => hlast hp.2.1
    obtain ⟨hdevice, _⟩ := perform_passive (k := k) (h.apart.passive k c hc hback) hrunning he
    rw [own, if_neg fun hown => hlast hown.2.1, Runs.run_nil]
    refine ⟨hapart, huser.trans h.signed, ⟨d, ?_, ?_⟩, hdevice.log.trans h.log⟩
    · rw [hclients, getLast?_set hk, if_neg hlast]
      exact hd
    · rw [← hscreen, load, load, documents, documents, hdevice.accounts, hdevice.device,
        hdevice.user, hdevice.nextIdent]

/-- A launch opens the screen of a new session. -/
theorem alone_relaunch (h : Alone accounts sent user z w)
    (hapart : Apart (fun _ _ => True) accounts w.relaunch) :
    Alone accounts sent user (Runs.run Screen.alone z [.session .relaunch]) w.relaunch := by
  obtain ⟨c, _, hscreen⟩ := h.screen
  refine ⟨hapart, h.signed, ⟨w.newClient user, by simp [relaunch, h.signed], ?_⟩, h.log⟩
  rw [Runs.run_cons, Runs.run_nil, Screen.alone, if_pos rfl, ← hscreen]
  simp [load, newClient, relaunch, documents, h.signed, Device.signIn, State.started,
    State.relaunch]

/-- The session goes on with the clock. -/
theorem alone_nextDay (h : Alone accounts sent user z w) (hcrashed : w.crashed = none)
    (hapart : Apart (fun _ _ => True) accounts (w.handle .nextDay)) :
    Alone accounts sent user (Runs.run Screen.alone z (w.own .nextDay)) (w.handle .nextDay) := by
  obtain ⟨c, hc, hscreen⟩ := h.screen
  have hrunning := h.apart.directed.running hcrashed c (List.mem_of_getLast? hc)
  have hday := load_nextDay (w := w) hrunning (some user)
  have hjournal : ((w.load (some user) c.screen).step (.session .nextDay)).session.journal =
      (w.load (some user) c.screen).session.journal := by
    rw [← hday]
    rfl
  rw [own, if_pos hcrashed, Runs.run_cons, Runs.run_nil, Screen.alone, if_neg (by simp),
    ← hscreen, hjournal, List.drop_length, List.append_nil]
  exact ⟨hapart, h.signed, ⟨c, hc, hday⟩, h.log⟩

/-- While the user is signed in, the session goes on as if it were alone. -/
theorem alone_step (h : Alone accounts sent user z w) {e : WorldEvent}
    (he : e ≠ .signOutButtonTapped) :
    Alone accounts sent user (Runs.run Screen.alone z (w.own e)) (w.step e) := by
  have hapart : Apart (fun _ _ => True) accounts (w.step e) := by
    refine apart_step h.apart ?_ ?_
    · cases e <;> first | contradiction | trivial
    · cases e with
      | client k e => exact fun _ _ => trivial
      | _ => trivial
  by_cases hcrashed : w.crashed = none
  · rw [step, if_pos hcrashed] at hapart ⊢
    cases e with
    | loginTapped v =>
      rw [handle, loginTapped, if_neg (by simp [h.signed])]
      exact h
    | signUpTapped v =>
      rw [handle, signUpTapped, if_neg (by simp [h.signed])]
      exact h
    | signOutButtonTapped => contradiction
    | relaunch => exact alone_relaunch h hapart
    | nextDay => exact alone_nextDay h hcrashed hapart
    | client k e =>
      rcases client_cases w k e with ⟨hw, hnot⟩ | ⟨c, hc, hpossible, hw⟩
      · have hown : w.own (.client k e) = [] := by
          refine if_neg fun hown => ?_
          have hk : k < w.clients.length := by omega
          exact hnot _ (List.getElem?_eq_getElem hk)
            (Or.inr ⟨by simp [h.signed], hown.2.1, hown.2.2⟩)
        rw [handle, hw, hown]
        exact h
      · rw [handle, hw] at hapart ⊢
        exact alone_client h hcrashed hc hpossible hapart
  · rw [step, if_neg hcrashed] at hapart ⊢
    by_cases hlaunch : e = .relaunch
    · subst hlaunch
      exact alone_relaunch h hapart
    · have hown : w.own e = [] := by
        cases e <;> simp_all [own]
      rw [if_neg hlaunch, hown]
      exact h

/-- A run until the next sign-out. -/
theorem alone_run (h : Alone accounts sent user z w) {es : List WorldEvent}
    (hes : ∀ e ∈ es, e ≠ .signOutButtonTapped) :
    Alone accounts sent user (Runs.run Screen.alone z (Runs.observe step own w es)) (run w es) :=
  Runs.simulation step own Screen.alone (fun _ e => e ≠ .signOutButtonTapped)
    (Alone accounts sent user) (fun _ _ _ h he => alone_step h he)
    (((Runs.guarded_true w es).and_forall hes).mono (I := fun _ => True) (fun _ _ _ => trivial)
      (fun _ _ _ h => h.2) trivial) h

/-! ## After a sign-in -/

/-- The saved day is not ahead of the clock of the device. -/
theorem device_sound_step (h : w.device.Sound) (e : WorldEvent) : (w.step e).device.Sound := by
  rw [step]
  split
  · cases e with
    | loginTapped user =>
      rw [handle, loginTapped]
      split <;> exact h
    | signUpTapped user =>
      rw [handle, signUpTapped]
      split <;> exact h
    | nextDay => exact fun day hsaved => Nat.le_succ_of_le (h day hsaved)
    | client k e =>
      rcases client_cases w k e with ⟨hw, _⟩ | ⟨c, _, _, hw⟩ <;> rw [handle, hw]
      · exact h
      · rw [(perform_frame (w := w) (k := k) (c := c) (e := e)).2.2.1]
        exact Screen.saved_step (x := w.load (c.reads w.user e) c.screen) h e
    | _ => exact h
  · split <;> exact h

/-- A device on which `user` can sign in, after what others did on it. -/
structure Left (user : Nat) (w : World) : Prop where
  history : ∃ accounts day nextIdent es, w = run (opened accounts { today := day } nextIdent) es
  running : w.crashed = none
  nobody : w.user = none
  account : (w.accounts user).isSome = true

/-- The user finds the same documents on the same day. -/
structure SameStart (user : Nat) (w w' : World) : Prop where
  account : w.accounts user = w'.accounts user
  today : w.device.today = w'.device.today

/-- The values that the session of `user` writes to the documents of `user`
in the run of `es`. -/
def dayWrites (user : Nat) (w : World) (es : List WorldEvent) : List DayValues :=
  let sent := (run w es).log.drop w.log.length
  dayValues ((sent.filter fun i => i.owner = user ∧ i.account = user).map Issued.write)

/-- Until the next sign-out, the same actions write the same values. -/
def SameDayWrites (user : Nat) (w w' : World) : Prop :=
  ∀ es es', (∀ e ∈ es, e ≠ .signOutButtonTapped) → (∀ e ∈ es', e ≠ .signOutButtonTapped) →
    Runs.observe step own w es = Runs.observe step own w' es' →
      dayWrites user w es = dayWrites user w' es'

/-- The writes of the user's own session. -/
theorem dayWrites_of_log {es : List WorldEvent} {ws : List Write}
    (h : (run w es).log = w.log ++ ws.map (Issued.mk user user)) :
    dayWrites user w es = dayValues ws := by
  have hall : (ws.map (Issued.mk user user)).filter
      (fun i => i.owner = user ∧ i.account = user) = ws.map (Issued.mk user user) :=
    List.filter_eq_self.mpr fun i hi => by
      obtain ⟨v, _, rfl⟩ := List.mem_map.mp hi
      simp
  rw [dayWrites, h, List.drop_left, hall, List.map_map]
  exact congrArg dayValues (List.map_id ws)

namespace Left

theorem directed (h : Left user w) : w.Directed := by
  obtain ⟨accounts, day, nextIdent, es, rfl⟩ := h.history
  have hall : Runs.Guarded step (fun _ _ => True) (opened accounts { today := day } nextIdent) es :=
    Runs.guarded_true _ es
  exact Runs.run_invariant (I := World.Directed) (fun _ e h _ => directed_step h e) hall
    ⟨fun _ => by simp [opened], by simp [opened], by simp [opened]⟩

theorem sound (h : Left user w) : w.device.Sound := by
  obtain ⟨accounts, day, nextIdent, es, rfl⟩ := h.history
  have hall : Runs.Guarded step (fun _ _ => True) (opened accounts { today := day } nextIdent) es :=
    Runs.guarded_true _ es
  exact Runs.run_invariant (I := fun w : World => w.device.Sound)
    (fun _ e h _ => device_sound_step h e) hall (by simp [opened, Device.Sound])

theorem step_loginTapped (h : Left user w) :
    w.step (.loginTapped user) = w.transitionToHome user := by
  rw [step, if_pos h.running, handle, loginTapped, if_pos ⟨h.nobody, h.account⟩]

/-- The screen that the sign-in opens. -/
theorem load_newClient (w : World) (user : Nat) :
    (w.transitionToHome user).load (some user) (w.newClient user).screen =
      { session := w.device.signIn (w.documents (some user)) w.nextIdent } := rfl

/-- The session of the user is alone on the device. -/
theorem alone (h : Left user w) (hpassive : ∀ c ∈ w.clients, c.screen.Passive) :
    Alone w.accounts w.log user
      ({ session := w.device.signIn (w.documents (some user)) w.nextIdent }, [])
      (w.transitionToHome user) := by
  have hapart : Apart (fun _ _ => True) w.accounts w := by
    refine ⟨h.directed, fun k c hc _ => hpassive c (List.mem_of_getElem? hc), fun _ => id,
      fun v st _ hst => ?_, by simp [h.nobody]⟩
    rw [start, hst, Option.getD_some]
    exact .refl
  exact ⟨apart_transitionToHome hapart h.nobody h.account, rfl,
    ⟨w.newClient user, by simp [transitionToHome], load_newClient w user⟩,
    by simp [transitionToHome]⟩

/-- The new screen appears for the first time, and nothing of the others is in
the way. -/
theorem own_appearance (h : Left user w) :
    Runs.observe step own (w.transitionToHome user)
      [.client w.clients.length (.session .viewWillAppear)] = [.session .viewWillAppear] := by
  have hcrashed : (w.transitionToHome user).crashed = none := h.running
  have hlast : w.clients.length + 1 = (w.transitionToHome user).clients.length := by
    simp [transitionToHome]
  rw [Runs.observe_cons, Runs.observe_nil, own, if_pos ⟨hcrashed, hlast, rfl⟩, List.append_nil]

/-- It issues what the reset of a new session writes. -/
theorem log_appearance (h : Left user w) :
    (run (w.transitionToHome user)
      [.client w.clients.length (.session .viewWillAppear)]).log =
      (w.transitionToHome user).log ++
        (HabitCollection.viewWillAppear (w.device.signIn (w.documents (some user))
          w.nextIdent)).journal.map (Issued.mk user user) := by
  have hcrashed : (w.transitionToHome user).crashed = none := h.running
  have hclient : (w.transitionToHome user).clients[w.clients.length]? =
      some (w.newClient user) := by
    simp [transitionToHome]
  have hpossible : (w.transitionToHome user).Possible w.clients.length
      (.session .viewWillAppear) := Or.inr ⟨rfl, by simp [transitionToHome], rfl⟩
  have hstepped : (w.transitionToHome user).stepped (w.newClient user) (.session .viewWillAppear) =
      Screen.step { session := w.device.signIn (w.documents (some user)) w.nextIdent }
        (.session .viewWillAppear) := by
    rw [← load_newClient w user]
    rfl
  have hjournal : ((w.transitionToHome user).stepped (w.newClient user)
      (.session .viewWillAppear)).session.journal =
        (w.newClient user).screen.session.journal ++
          (HabitCollection.viewWillAppear
            (w.device.signIn (w.documents (some user)) w.nextIdent)).journal := by
    rw [hstepped]
    rfl
  have hrun : run (w.transitionToHome user)
      [.client w.clients.length (.session .viewWillAppear)] =
        (w.transitionToHome user).perform w.clients.length (w.newClient user)
          (.session .viewWillAppear) := by
    change step (w.transitionToHome user) _ = _
    rw [step, if_pos hcrashed, handle, client, hclient]
    exact if_pos hpossible
  rw [hrun]
  exact (perform_accounts (k := w.clients.length) user hjournal fun _ _ => rfl).2

/-- It writes nothing exactly if the saved day is today. -/
theorem dayWrites_appearance (h : Left user w) :
    dayWrites user (w.transitionToHome user)
        [.client w.clients.length (.session .viewWillAppear)] = [] ↔
      w.device.palmiIsCool = some w.device.today := by
  rw [dayWrites_of_log h.log_appearance]
  exact dayValues_appearance w.device _ _

end Left

/-! ## Two devices -/

variable {w' : World}

/-- Two devices with different pasts, on which a user finds the same account
on the same day.  If only refreshes are under way on the screens of those
before, and the saved day is today on both devices or on neither, then
whatever the user does after the sign-in, the session writes the same
values.  Where the saved days differ, one appearance of the list tells them
apart. -/
theorem dayWrites_eq_iff (h : Left user w) (h' : Left user w') (hsame : SameStart user w w') :
    ((∀ c ∈ w.clients, c.screen.Passive) → (∀ c ∈ w'.clients, c.screen.Passive) →
      (w.device.palmiIsCool = some w.device.today ↔ w'.device.palmiIsCool = some w'.device.today) →
        SameDayWrites user (w.step (.loginTapped user)) (w'.step (.loginTapped user))) ∧
    (SameDayWrites user (w.step (.loginTapped user)) (w'.step (.loginTapped user)) →
      (w.device.palmiIsCool = some w.device.today ↔
        w'.device.palmiIsCool = some w'.device.today)) := by
  rw [h.step_loginTapped, h'.step_loginTapped]
  constructor
  · intro hpassive hpassive' hsaved es es' hes hes' hactions
    have hlog := (alone_run (h.alone hpassive) hes).log
    have hlog' := (alone_run (h'.alone hpassive') hes').log
    have hstart : Screen.AlikeAlone
        ({ session := w.device.signIn (w.documents (some user)) w.nextIdent }, [])
        ({ session := w'.device.signIn (w'.documents (some user)) w'.nextIdent }, []) := by
      have hdocuments : w.documents (some user) = w'.documents (some user) := by
        simp [documents, hsame.account]
      rw [hdocuments]
      have halike := alike_signIn hsame.today hsaved (w'.documents (some user)) w.nextIdent
        w'.nextIdent
      exact ⟨h.sound.signIn _ _, h'.sound.signIn _ _,
        ⟨congrArg (fun s => ({ session := s } : Screen)) halike.core, halike.savedToday⟩, rfl⟩
    have hend := (hstart.run (Runs.observe step own (w.transitionToHome user) es)).written
    rw [dayWrites_of_log hlog, dayWrites_of_log hlog', ← dayValues_core, hend, dayValues_core,
      hactions]
  · intro hequal
    rw [← h.dayWrites_appearance, ← h'.dayWrites_appearance,
      hequal _ _ (by simp) (by simp) (h.own_appearance.trans h'.own_appearance.symm)]

/-- Client `k` loads its list of two habits. -/
def loadsTwo (k : Nat) : List WorldEvent :=
  [Event.viewDidLoad, .serve 0, .deliver 0, .deliver 0, .serve 0, .deliver 0, .serve 0,
    .deliver 0].map fun e => .client k (.session e)

/-- Client `k` loads its list, and a row is tapped once. -/
def tapsRow (k row : Nat) : List WorldEvent :=
  loadsTwo k ++ [.client k (.cellForItemAt row 0), .client k (.didSelectItemAt row 0 0)]

/-- Client `k` loads its list and appears. -/
def appears (k : Nat) : List WorldEvent := loadsTwo k ++ [.client k (.session .viewWillAppear)]

/-- The first user taps a row and signs out. -/
def otherTaps (row : Nat) : World :=
  run (opened twoUsers { today := 0 } 4) (.loginTapped 0 :: tapsRow 0 row ++ [.signOutButtonTapped])

/-- The reset of the day takes place on a new device, and not on one that
another user has tapped on today. -/
theorem tap_of_other_user_stops_reset :
    let w := opened twoUsers { today := 0 } 4
    let w' := otherTaps 1
    Left 1 w ∧ Left 1 w' ∧ SameStart 1 w w' ∧
      Runs.observe step own (w.step (.loginTapped 1)) (appears 0) =
        Runs.observe step own (w'.step (.loginTapped 1)) (appears 1) ∧
      dayWrites 1 (w.step (.loginTapped 1)) (appears 0) =
        [{ document := none, finishedHabits := some 0 },
          { document := some 0, streak := some 0, currentCount := some 0,
            addFirebase := some true },
          { document := some 1, streak := some 0, currentCount := some 0,
            addFirebase := some true }] ∧
      dayWrites 1 (w'.step (.loginTapped 1)) (appears 1) = [] ∧
      ¬SameDayWrites 1 (w.step (.loginTapped 1)) (w'.step (.loginTapped 1)) := by
  have hactions : Runs.observe step own
      ((opened twoUsers { today := 0 } 4).step (.loginTapped 1)) (appears 0) =
        Runs.observe step own ((otherTaps 1).step (.loginTapped 1)) (appears 1) := by
    decide +kernel
  have hnone : dayWrites 1 ((otherTaps 1).step (.loginTapped 1)) (appears 1) = [] := by
    decide +kernel
  refine ⟨⟨⟨_, _, _, [], rfl⟩, rfl, rfl, rfl⟩, ⟨⟨_, _, _, _, rfl⟩, ?_, ?_, ?_⟩, ⟨rfl, ?_⟩,
    hactions, ?_, hnone, fun hsame => ?_⟩
  on_goal 6 =>
    have hequal := hsame _ _ (by decide) (by decide) hactions
    rw [hnone] at hequal
    revert hequal
  all_goals decide +kernel

/-- A tap of the day before leaves nothing behind. -/
theorem dayWrites_eq_iff_day_before :
    SameDayWrites 1 ((opened twoUsers { today := 1 } 4).step (.loginTapped 1))
      (((otherTaps 1).step .nextDay).step (.loginTapped 1)) := by
  have h : Left 1 (opened twoUsers { today := 1 } 4) := ⟨⟨_, _, _, [], rfl⟩, rfl, rfl, rfl⟩
  have h' : Left 1 ((otherTaps 1).step .nextDay) :=
    ⟨⟨twoUsers, 0, 4, .loginTapped 0 :: tapsRow 0 1 ++ [.signOutButtonTapped, .nextDay], rfl⟩,
      by decide +kernel, by decide +kernel, by decide +kernel⟩
  exact (dayWrites_eq_iff h h' ⟨rfl, by decide +kernel⟩).1 (by decide +kernel) (by decide +kernel)
    (by decide +kernel)

/-- A completion that goes on after the sign-out takes down the flag of a
habit of the next user, who taps it in vain. -/
example :
    dayWrites 1 ((otherTaps 1).step (.loginTapped 1)) (tapsRow 1 0) =
        [{ document := some 0, currentCount := some 1 }] ∧
      dayWrites 1 ((otherTaps 0).step (.loginTapped 1))
        ([.client 0 (.session (.serve 0)), .client 0 (.session (.deliver 0))] ++ tapsRow 1 0) =
          [] := by
  decide +kernel

end World

end HabitHive
