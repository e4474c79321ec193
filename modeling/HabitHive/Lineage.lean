import HabitHive.Accounts
import HabitHive.Values

/-!
# Accounts that share a device

A device is used by several users, and the documents of each account could
be what all of them together make of it.  `Lineage` says that they are not:
that they are what sessions of their own user make of them, one after the
other, each on what the last one has left.  `Lineage.invariant` carries what
holds of every single session over to the account.

`accounts_apart` is the condition for it: whoever signs out does so when
only refreshes are under way.  The invariant behind it is `Apart`.  The
screens in the background are passive, and the screen of the user who is
signed in is at every moment the one that a session alone on the device
would have reached (`OwnSession`).

So what one user enters does not get into the account of another
(`stored_apart`), up to the color, which the device keeps for whoever
creates the next habit.
-/

namespace HabitHive

/-- `st'` is what sessions make of the documents `st`, with events in `alpha`
while the days go by.  What else happens on the device only shows in what the
device keeps. -/
inductive Lineage (alpha : ScreenEvent → Prop) (st : Store) : Store → Prop where
  | refl : Lineage alpha st st
  | session {st' : Store} (h : Lineage alpha st st') (device : Device) (nextIdent : Nat)
      (es : List ScreenEvent) (hes : ∀ e ∈ es, e = .session .nextDay ∨ alpha e) :
      Lineage alpha st (Screen.run { session := device.signIn st' nextIdent } es).session.store

/-- What every session keeps holds of the documents of an account. -/
theorem Lineage.invariant {alpha : ScreenEvent → Prop} {P : Store → Prop} {st st' : Store}
    (h : Lineage alpha st st')
    (hsession : ∀ (device : Device) (nextIdent : Nat) (es : List ScreenEvent) (st : Store),
      (∀ e ∈ es, e = .session .nextDay ∨ alpha e) → P st →
        P (Screen.run { session := device.signIn st nextIdent } es).session.store)
    (hst : P st) : P st' := by
  induction h with
  | refl => exact hst
  | session _ device nextIdent es hes ih => exact hsession device nextIdent es _ hes ih

/-- The names and goals that are stored in `st` or entered by events in
`alpha`.  The color is left open: the device keeps the one that was chosen
last, whoever chose it. -/
def enteredBy (alpha : ScreenEvent → Prop) (st : Store) : Values where
  typed text := text = [] ∨ st.Contains HabitFields.name text ∨
    ∃ e, alpha (.session e) ∧ e.types text
  name text := st.Contains HabitFields.name text ∨
    text.Accepted ∧ ∃ e, alpha (.session e) ∧ e.types text
  color _ := True
  goal goal := st.Contains HabitFields.goal goal ∨
    (goal = 0 ∧ ∃ e, alpha (.session e) ∧ e.setsTime) ∨ ∃ e, alpha (.session e) ∧ e.picks goal
  count _ := True
  streak _ := True

theorem enteredBy_closed (alpha : ScreenEvent → Prop) (st : Store) :
    (enteredBy alpha st).Closed where
  empty := Or.inl rfl
  typed _ h := Or.inr (h.imp_right And.right)
  name _ h haccepted := (h.resolve_left haccepted.1).imp_right fun h => ⟨haccepted, h⟩
  noCount := trivial
  countUp _ _ _ _ _ := trivial
  noStreak := trivial

theorem enters_enteredBy {alpha : ScreenEvent → Prop} (st : Store) {e : Event}
    (he : ScreenEvent.session e = .session .nextDay ∨ alpha (.session e)) :
    e.Enters (enteredBy alpha st) := by
  rcases he with he | he
  · rw [ScreenEvent.session.inj he]
    trivial
  · cases e with
    | createName _ _ | editName _ _ => exact Or.inr (Or.inr ⟨_, he, rfl⟩)
    | createAmount _ _ | editAmount _ _ => exact Or.inr (Or.inr ⟨_, he, rfl⟩)
    | createTime _ _ => exact Or.inr (Or.inl ⟨rfl, _, he, trivial⟩)
    | _ => trivial

/-- A lineage stores no other names and goals than it starts with and its
events enter. -/
theorem Lineage.within {alpha : ScreenEvent → Prop} {st st' : Store} (h : Lineage alpha st st') :
    st'.Within (enteredBy alpha st) := by
  refine h.invariant (fun device nextIdent es st' hes hst' => ?_) fun k doc hdoc => ?_
  · have hstart : Holds (enteredBy alpha st) (device.signIn st' nextIdent) :=
      .fresh hst' rfl rfl rfl rfl trivial
    exact (hstart.screen (x := { session := device.signIn st' nextIdent })
      (enteredBy_closed alpha st) (fun _ _ => trivial)
      fun e he => enters_enteredBy st (hes _ he)).store
  · constructor <;> intro x hx
    · exact Or.inl ⟨k, doc, hdoc, hx⟩
    · trivial
    · exact Or.inl ⟨k, doc, hdoc, hx⟩
    · trivial
    · trivial

namespace World

/-- A user only signs out when nothing but refreshes is under way. -/
def SignsOutPassive (w : World) : WorldEvent → Prop
  | .signOutButtonTapped => ∀ c ∈ w.clients.getLast?, c.screen.Passive
  | _ => True

instance (w : World) : (e : WorldEvent) → Decidable (w.SignsOutPassive e)
  | .signOutButtonTapped =>
      inferInstanceAs (Decidable (∀ c ∈ w.clients.getLast?, c.screen.Passive))
  | .loginTapped _ | .signUpTapped _ | .relaunch | .nextDay | .client _ _ => isTrue trivial

/-- What happens on the screens of a user is in `alpha`. -/
def Acts (alpha : Nat → ScreenEvent → Prop) (w : World) : WorldEvent → Prop
  | .client k e => ∀ c ∈ w.clients[k]?, alpha c.owner e
  | _ => True

/-- The documents that an account starts with: those it had, or those of a
sign-up. -/
def start (accounts : Nat → Option Store) (user : Nat) : Store := (accounts user).getD .signUp

/-- The client `c` of `user` is what a session alone on the device would
be. -/
structure OwnSession (alpha : Nat → ScreenEvent → Prop) (accounts : Nat → Option Store) (w : World)
    (user : Nat) (c : Client) : Prop where
  owner : c.owner = user
  account : (w.accounts user).isSome = true
  refs : c.Aligned fun _ ref => ref = some user
  times : c.timeRefs = List.replicate c.screen.reads.length (some user)
  run : ∃ (st : Store) (device : Device) (nextIdent : Nat) (es : List ScreenEvent),
    Lineage (alpha user) (start accounts user) st ∧
      (∀ e ∈ es, e = .session .nextDay ∨ alpha user e) ∧
        w.load (some user) c.screen = Screen.run { session := device.signIn st nextIdent } es

/-- The accounts have nothing to do with each other. -/
structure Apart (alpha : Nat → ScreenEvent → Prop) (accounts : Nat → Option Store) (w : World) :
    Prop where
  directed : w.Directed
  passive : ∀ k c, w.clients[k]? = some c →
    (w.user.isSome = true → k + 1 ≠ w.clients.length) → c.screen.Passive
  kept : ∀ user, (accounts user).isSome = true → (w.accounts user).isSome = true
  others : ∀ user st, w.user ≠ some user → w.accounts user = some st →
    Lineage (alpha user) (start accounts user) st
  current : ∀ user ∈ w.user, ∃ c ∈ w.clients.getLast?, OwnSession alpha accounts w user c

variable {alpha : Nat → ScreenEvent → Prop} {accounts : Nat → Option Store} {w : World}
  {user k : Nat} {c : Client} {e : ScreenEvent}

/-- The documents of the user who is signed in. -/
theorem OwnSession.lineage (h : OwnSession alpha accounts w user c) :
    Lineage (alpha user) (start accounts user) (w.documents (some user)) := by
  obtain ⟨st, device, nextIdent, es, hst, hes, hrun⟩ := h.run
  have hstore := congrArg (fun x : Screen => x.session.store) hrun
  rw [show w.documents (some user) = _ from hstore]
  exact hst.session device nextIdent es hes

/-- The documents of every account. -/
theorem Apart.lineage (h : Apart alpha accounts w) {st : Store} (hst : w.accounts user = some st) :
    Lineage (alpha user) (start accounts user) st := by
  by_cases huser : w.user = some user
  · obtain ⟨c, _, hown⟩ := h.current user huser
    have hdocuments : w.documents (some user) = st := by simp [documents, hst]
    exact hdocuments ▸ hown.lineage
  · exact h.others user st huser hst

/-! ## The user who is signed in -/

theorem forall₂_const {α β : Type*} {b : β} {as : List α} {bs : List β}
    (h : List.Forall₂ (fun _ b' => b' = b) as bs) : ∀ b' ∈ bs, b' = b := by
  induction h with
  | nil => simp
  | cons hb _ ih => simpa [hb] using ih

/-- The client of a user reads the own account. -/
theorem OwnSession.reads (h : OwnSession alpha accounts w user c) (e : ScreenEvent) :
    c.reads (some user) e = some user := by
  have hget : ∀ (refs : List (Option Nat)) (i : Nat), (∀ ref ∈ refs, ref = some user) →
      refs[i]?.getD (some user) = some user := by
    intro refs i hrefs
    cases href : refs[i]? with
    | none => rfl
    | some ref => exact hrefs ref (List.mem_of_getElem? href)
  rw [Client.reads.eq_def]
  split
  · exact hget c.refs _ (forall₂_const h.refs)
  · exact hget c.timeRefs _ fun ref href => (List.mem_replicate.mp (h.times ▸ href)).2
  · rfl

/-- The client of a user writes to the own account. -/
theorem OwnSession.writes (h : OwnSession alpha accounts w user c) (e : ScreenEvent) (v : Write) :
    c.writes (some user) e v = some user := by
  rw [Client.writes]
  split
  · next hcaptures =>
    cases htaken : c.screen.taken e with
    | none =>
      rw [htaken] at hcaptures
      contradiction
    | some call =>
      obtain ⟨ref, href, hown⟩ := Client.ref_of_taken h.refs htaken
      rw [href, hown]
  · rfl

/-- The accounts and the log when an event writes to one account only. -/
theorem perform_accounts {ws : List Write} (account : Nat)
    (hjournal : (w.stepped c e).session.journal = c.screen.session.journal ++ ws)
    (hwrites : ∀ v ∈ ws, c.writes w.user e v = some account) :
    (w.perform k c e).accounts =
        Function.update w.accounts account ((w.accounts account).map (·.applyAll ws)) ∧
      (w.perform k c e).log = w.log ++ ws.map (Issued.mk c.owner account) := by
  have haccounts := (issueAll_accounts c.owner (c.writes w.user e) ws
    (w.adopt k c e (w.stepped c e)) hwrites).1
  have hlog := issueAll_log_eq c.owner (c.writes w.user e) ws
    (w.adopt k c e (w.stepped c e)) hwrites
  rw [perform, hjournal, List.drop_left]
  split <;> exact ⟨haccounts, hlog⟩

/-- The times of the reads, when those that are new are the user's. -/
theorem timeRefs_after {y : Screen}
    (h : c.timeRefs = List.replicate c.screen.reads.length (some user))
    (hreads : ((c.screen.takenTime e).elim c.screen.reads c.screen.reads.eraseIdx).length ≤
      y.reads.length) :
    (c.after (some user) e y).timeRefs = List.replicate y.reads.length (some user) := by
  have hkept : c.timeRefsKept e = List.replicate ((c.screen.takenTime e).elim c.screen.reads
      c.screen.reads.eraseIdx).length (some user) := by
    rw [Client.timeRefsKept, h]
    cases c.screen.takenTime e with
    | none => rfl
    | some i =>
      rw [Option.elim_some, Option.elim_some, ← List.map_const', ← List.map_const',
        List.eraseIdx_map]
  rw [Client.after, hkept, List.length_replicate, List.replicate_append_replicate,
    Nat.add_sub_cancel' hreads]

/-- A client on the device that its last event has left is the screen that
the event has left. -/
theorem load_perform {y : Screen} (hy : y = w.stepped c e) (huser : w.user = some user)
    (hsigned : y.session.signedIn = true)
    (hdocuments : (w.perform k c e).documents (some user) = y.session.store) :
    (w.perform k c e).load (some user) y = y := by
  obtain ⟨_, huser', hdevice, hnext, _⟩ := perform_frame (w := w) (k := k) (c := c) (e := e)
  rw [load, hdocuments, huser', huser, hdevice, hnext, ← hy, Option.isSome_some, ← hsigned]
  rfl

/-- An event of the user who is signed in is the same event of a session
that is alone on the device, and what it writes goes to the own account. -/
theorem OwnSession.stepped (h : OwnSession alpha accounts w user c) (huser : w.user = some user) :
    w.stepped c e = (w.load (some user) c.screen).step e ∧
      (w.perform k c e).load (some user) (w.stepped c e) = w.stepped c e ∧
      ∃ ws, (w.stepped c e).session.journal = c.screen.session.journal ++ ws ∧
        (w.perform k c e).accounts =
          Function.update w.accounts user ((w.accounts user).map (·.applyAll ws)) ∧
        (w.perform k c e).log = w.log ++ ws.map (Issued.mk user user) := by
  have hload : w.stepped c e = (w.load (some user) c.screen).step e := by
    rw [World.stepped, huser, h.reads]
  obtain ⟨ws, hstore, hjournal⟩ := Screen.journal_step (w.load (some user) c.screen) e
  rw [← hload] at hstore hjournal
  obtain ⟨haccounts, hlog⟩ := perform_accounts (k := k) user hjournal fun v _ => by
    rw [huser]
    exact h.writes e v
  rw [h.owner] at hlog
  have hdocuments : (w.perform k c e).documents (some user) = (w.stepped c e).session.store := by
    obtain ⟨st, hst⟩ := Option.isSome_iff_exists.mp h.account
    have hloaded : (w.load (some user) c.screen).session.store = st := by
      simp [load, documents, hst]
    simp [documents, haccounts, hst, hstore, hloaded]
  have hsigned : (w.stepped c e).session.signedIn = true := by
    rw [hload, Screen.signedIn_step, load, huser]
    rfl
  exact ⟨hload, load_perform rfl huser hsigned hdocuments, ws, hjournal, haccounts, hlog⟩

/-- So the user still has a session alone on the device, and the other
accounts stay. -/
theorem OwnSession.perform (h : OwnSession alpha accounts w user c) (huser : w.user = some user)
    (hrunning : c.screen.session.crashed = none) (he : e ≠ .session .relaunch)
    (hacts : alpha user e) :
    OwnSession alpha accounts (w.perform k c e) user (c.after w.user e (w.stepped c e)) ∧
      ∀ v ≠ user, (w.perform k c e).accounts v = w.accounts v := by
  obtain ⟨hload, hloaded, ws, _, haccounts, _⟩ := h.stepped (k := k) (e := e) huser
  refine ⟨⟨h.owner, ?_, ?_, ?_, ?_⟩, fun v hv => by rw [haccounts, Function.update_of_ne hv]⟩
  · rw [haccounts, Function.update_self, Option.isSome_map]
    exact h.account
  · refine Client.aligned_after h.refs (stepped_turnover hrunning he) fun cb hread _ => ?_
    split
    · next hdoc =>
      cases htaken : c.screen.taken e with
      | none =>
        rw [hread htaken] at hdoc
        contradiction
      | some call =>
        obtain ⟨ref, href, hown⟩ := Client.ref_of_taken h.refs htaken
        rw [href, hown]
    · exact huser
  · rw [huser]
    refine timeRefs_after h.times ?_
    rw [hload]
    exact Screen.reads_step (x := w.load (some user) c.screen) hrunning he
  · obtain ⟨st, device, nextIdent, es, hst, hes, hrun⟩ := h.run
    refine ⟨st, device, nextIdent, es ++ [e], hst, fun e' he' => ?_, ?_⟩
    · rcases List.mem_append.mp he' with he' | he'
      · exact hes e' he'
      · exact Or.inr (List.mem_singleton.mp he' ▸ hacts)
    rw [show (c.after w.user e (w.stepped c e)).screen = w.stepped c e from rfl,
      hloaded, hload, hrun, Screen.run, Screen.run,
      Runs.run_append, Runs.run_cons, Runs.run_nil]

/-! ## The clients in the background -/

/-- What the accounts and the user who is signed in see of the device. -/
structure SameDevice (w w' : World) : Prop where
  accounts : w'.accounts = w.accounts
  device : w'.device = w.device
  user : w'.user = w.user
  nextIdent : w'.nextIdent = w.nextIdent
  log : w'.log = w.log

/-- A session is the same on the same device. -/
theorem OwnSession.same {w' : World} (h : OwnSession alpha accounts w user c)
    (hw : SameDevice w w') :
    OwnSession alpha accounts w' user c := by
  have hload : w'.load (some user) c.screen = w.load (some user) c.screen := by
    rw [load, load, documents, documents, hw.accounts, hw.device, hw.user, hw.nextIdent]
  exact ⟨h.owner, hw.accounts ▸ h.account, h.refs, h.times, hload ▸ h.run⟩

/-- A passive client in the background leaves the device, and stays
passive. -/
theorem perform_passive (h : c.screen.Passive) (hrunning : c.screen.session.crashed = none)
    (he : e.isBackground = true) :
    SameDevice w (w.perform k c e) ∧ (w.stepped c e).Passive := by
  obtain ⟨hpassive, hlist⟩ := Screen.Passive.step (x := w.load (c.reads w.user e) c.screen)
    ⟨h.calls, h.timers, h.blocks, h.reads⟩ hrunning he
  obtain ⟨_, huser, hdevice, hnext, _⟩ := perform_frame (w := w) (k := k) (c := c) (e := e)
  have hjournal : (w.stepped c e).session.journal = c.screen.session.journal ++ [] :=
    hlist.journal.trans (List.append_nil _).symm
  refine ⟨⟨?_, ?_, huser, hnext.trans hlist.nextIdent, ?_⟩, hpassive⟩
  · rw [perform, hjournal, List.drop_left]
    split <;> rfl
  · have htoday : (w.stepped c e).session.today = w.device.today := hlist.today
    have hsaved : (w.stepped c e).session.palmiIsCool = w.device.palmiIsCool := hlist.palmiIsCool
    have hcolor : (w.stepped c e).session.sectionColor = w.device.sectionColor :=
      hlist.sectionColor
    rw [hdevice, adopt, htoday, hsaved, hcolor]
  · rw [perform, hjournal, List.drop_left]
    split <;> rfl

/-! ## Steps -/

/-- The screens in the background after an event of client `k`. -/
theorem passive_set {cs : List Client} {d : Client} (h : ∀ k c, cs[k]? = some c →
      (w.user.isSome = true → k + 1 ≠ cs.length) → c.screen.Passive) (hk : k < cs.length)
    (hd : (w.user.isSome = true → k + 1 ≠ cs.length) → d.screen.Passive) :
    ∀ j c, (cs.set k d)[j]? = some c →
      (w.user.isSome = true → j + 1 ≠ (cs.set k d).length) → c.screen.Passive := by
  intro j c hc hback
  rw [List.length_set] at hback
  rw [List.getElem?_set] at hc
  split at hc
  · next hjk =>
    subst j
    exact Option.some.inj hc ▸ hd hback
  · exact h j c hc hback

theorem apart_perform (h : Apart alpha accounts w) (hcrashed : w.crashed = none)
    (hc : w.clients[k]? = some c) (hpossible : w.Possible k e) (hacts : alpha c.owner e) :
    Apart alpha accounts (w.perform k c e) := by
  obtain ⟨hclients, huser, _, _, _⟩ := perform_frame (w := w) (k := k) (c := c) (e := e)
  have hdirected := directed_perform h.directed hcrashed hc hpossible
  have hrunning := h.directed.running hcrashed c (List.mem_of_getElem? hc)
  have hk : k < w.clients.length := (List.getElem?_eq_some_iff.mp hc).1
  by_cases hback : w.user.isSome = true → k + 1 ≠ w.clients.length
  · -- a client in the background
    have he : e.isBackground = true := hpossible.resolve_right fun hp => hback hp.1 hp.2.1
    obtain ⟨hdevice, hpassive⟩ := perform_passive (k := k) (h.passive k c hc hback) hrunning he
    refine ⟨hdirected, ?_, ?_, ?_, ?_⟩
    · rw [hclients, huser]
      exact passive_set h.passive hk fun _ => hpassive
    · rw [hdevice.accounts]
      exact h.kept
    · rw [hdevice.accounts, huser]
      exact h.others
    · intro user hmember
      rw [huser] at hmember
      obtain ⟨d, hd, hown⟩ := h.current user hmember
      rw [hclients, getLast?_set hk, if_neg (hback (Option.isSome_of_mem hmember))]
      exact ⟨d, hd, hown.same hdevice⟩
  · -- the client of the user who is signed in
    rw [Classical.not_imp, not_ne_iff] at hback
    obtain ⟨hsome, hlast⟩ := hback
    obtain ⟨user, hmember⟩ := Option.isSome_iff_exists.mp hsome
    obtain ⟨d, hd, hown⟩ := h.current user hmember
    rw [Option.mem_def, List.getLast?_eq_getElem?, ← hlast, Nat.add_sub_cancel, hc,
      Option.some.injEq] at hd
    subst d
    have hne := ScreenEvent.ne_relaunch (hpossible.imp_right fun hp => hp.2.2)
    obtain ⟨hown', hother⟩ := hown.perform (k := k) hmember hrunning hne (hown.owner ▸ hacts)
    refine ⟨hdirected, ?_, fun v hv => ?_, fun v st hv hst => ?_, fun v hv => ?_⟩
    · rw [hclients, huser]
      exact passive_set h.passive hk fun hback => absurd hlast (hback hsome)
    · by_cases hvu : v = user
      · exact hvu ▸ hown'.account
      · rw [hother v hvu]
        exact h.kept v hv
    · rw [huser, hmember] at hv
      have hvu : v ≠ user := fun hvu => hv (congrArg some hvu.symm)
      rw [hother v hvu] at hst
      exact h.others v st (by rw [hmember]; exact hv) hst
    · rw [huser, hmember, Option.mem_some_iff] at hv
      subst v
      rw [hclients, getLast?_set hk, if_pos hlast]
      exact ⟨_, rfl, hown'⟩

/-- A user who has an account signs in. -/
theorem apart_transitionToHome (h : Apart alpha accounts w) (hnone : w.user = none)
    (huser : (w.accounts user).isSome = true) : Apart alpha accounts (w.transitionToHome user) := by
  obtain ⟨st, hst⟩ := Option.isSome_iff_exists.mp huser
  have hnobody : ∀ v : Nat, w.user ≠ some v := fun v => by simp [hnone]
  refine ⟨directed_transitionToHome h.directed user, fun k c hc hback => ?_, h.kept,
    fun v st _ => h.others v st (hnobody v), fun v hv => ?_⟩
  · have hk : k < w.clients.length := by
      have hlt := (List.getElem?_eq_some_iff.mp hc).1
      have hne := hback rfl
      simp only [transitionToHome, List.length_append, List.length_singleton] at hlt hne
      omega
    have hold : w.clients[k]? = some c := by
      rw [← hc, transitionToHome, List.getElem?_append_left hk]
    exact h.passive k c hold fun hsome => by simp [hnone] at hsome
  · obtain rfl : user = v := Option.some.inj hv
    refine ⟨w.newClient user, by simp [transitionToHome], rfl, huser, newClient_aligned _ w user,
      rfl, st, w.device, w.nextIdent, [], h.others user st (hnobody user) hst, by simp, ?_⟩
    simp [load, newClient, transitionToHome, documents, hst, Device.signIn, Screen.run]

/-- A new account. -/
theorem apart_createUser (h : Apart alpha accounts w) (hnone : w.user = none)
    (hnew : w.accounts user = none) : Apart alpha accounts (w.createUser user) := by
  have hself : (w.createUser user).accounts user = some .signUp := Function.update_self ..
  have hother : ∀ v ≠ user, (w.createUser user).accounts v = w.accounts v := fun v hv =>
    Function.update_of_ne hv ..
  have hstart : start accounts user = .signUp := by
    cases hold : accounts user with
    | none => rw [start, hold, Option.getD_none]
    | some st =>
      have hkept := h.kept user (by rw [hold, Option.isSome_some])
      rw [hnew] at hkept
      contradiction
  refine ⟨⟨h.directed.running, h.directed.refs, h.directed.current⟩, h.passive, fun v hv => ?_,
    fun v st _ hst => ?_, fun v hv => ?_⟩
  · by_cases hvu : v = user
    · rw [hvu, hself, Option.isSome_some]
    · rw [hother v hvu]
      exact h.kept v hv
  · by_cases hvu : v = user
    · subst v
      rw [hself, Option.some.injEq] at hst
      rw [hstart, ← hst]
      exact .refl
    · rw [hother v hvu] at hst
      exact h.lineage hst
  · have huser : w.user = some v := hv
    rw [hnone] at huser
    contradiction

theorem apart_relaunch (h : Apart alpha accounts w) : Apart alpha accounts w.relaunch := by
  refine ⟨directed_relaunch w, fun k c hc hback => ?_, h.kept, h.others, fun user hmember => ?_⟩
  · -- the only client is that of the user who is signed in
    cases huser : w.user with
    | none => simp [relaunch, huser] at hc
    | some user =>
      have hk := (List.getElem?_eq_some_iff.mp hc).1
      simp only [relaunch, huser, Option.toList_some, List.map_cons, List.map_nil,
        List.length_singleton] at hk hback
      exact absurd (by omega) (hback rfl)
  · have huser : w.user = some user := hmember
    obtain ⟨c, _, hown⟩ := h.current user huser
    refine ⟨w.newClient user, by simp [relaunch, huser], rfl, hown.account,
      newClient_aligned _ w user, rfl, w.documents (some user), w.device, w.nextIdent, [],
      hown.lineage, by simp, ?_⟩
    simp [load, newClient, relaunch, documents, huser, Device.signIn, Screen.run]

theorem apart_signOut (h : Apart alpha accounts w) (hok : w.SignsOutPassive .signOutButtonTapped) :
    Apart alpha accounts { w with user := none } := by
  refine ⟨⟨h.directed.running, h.directed.refs, by simp⟩, fun k c hc _ => ?_, h.kept,
    fun user st _ hst => h.lineage hst, by simp⟩
  by_cases hlast : k + 1 = w.clients.length
  · refine hok c ?_
    rw [Option.mem_def, List.getLast?_eq_getElem?, ← hlast, Nat.add_sub_cancel]
    exact hc
  · exact h.passive k c hc fun _ => hlast

/-- The clock of a screen is that of the device. -/
theorem load_nextDay {x : Screen} (hrunning : x.session.crashed = none) (ref : Option Nat) :
    { w with device := { w.device with today := w.device.today + 1 } }.load ref x =
      (w.load ref x).step (.session .nextDay) := by
  have hload : (w.load ref x).session.crashed = none := hrunning
  have hsession : (w.load ref x).step (.session .nextDay) =
      { w.load ref x with session := HabitHive.step (w.load ref x).session .nextDay } := by
    rw [Screen.step, if_pos hload]
    rfl
  rw [hsession, step_of_running hload]
  rfl

theorem apart_nextDay (h : Apart alpha accounts w) (hcrashed : w.crashed = none) :
    Apart alpha accounts { w with device := { w.device with today := w.device.today + 1 } } := by
  refine ⟨⟨h.directed.running, h.directed.refs, h.directed.current⟩, h.passive, h.kept, h.others,
    fun user hmember => ?_⟩
  obtain ⟨c, hc, hown⟩ := h.current user hmember
  obtain ⟨st, device, nextIdent, es, hst, hes, hrun⟩ := hown.run
  have hrunning := h.directed.running hcrashed c (List.mem_of_getLast? hc)
  refine ⟨c, hc, hown.owner, hown.account, hown.refs, hown.times, st, device, nextIdent,
    es ++ [.session .nextDay], hst, fun e he => ?_, ?_⟩
  · exact (List.mem_append.mp he).elim (hes e) fun he => Or.inl (List.mem_singleton.mp he)
  · rw [load_nextDay hrunning, hrun, Screen.run, Screen.run, Runs.run_append, Runs.run_cons,
      Runs.run_nil]

theorem apart_step (h : Apart alpha accounts w) {e : WorldEvent} (hok : w.SignsOutPassive e)
    (hacts : w.Acts alpha e) : Apart alpha accounts (w.step e) := by
  rw [step]
  split
  · next hcrashed =>
    cases e with
    | loginTapped user =>
      rw [handle, loginTapped]
      split
      · next hlogin => exact apart_transitionToHome h hlogin.1 hlogin.2
      · exact h
    | signUpTapped user =>
      rw [handle, signUpTapped]
      split
      · next hsign =>
        exact apart_transitionToHome (apart_createUser h hsign.1 hsign.2) hsign.1
          (by simp [createUser])
      · exact h
    | signOutButtonTapped => exact apart_signOut h hok
    | relaunch => exact apart_relaunch h
    | nextDay => exact apart_nextDay h hcrashed
    | client k e =>
      rcases client_cases w k e with ⟨hw, _⟩ | ⟨c, hc, hpossible, hw⟩ <;> rw [handle, hw]
      · exact h
      · exact apart_perform h hcrashed hc hpossible (hacts c hc)
  · split
    · exact apart_relaunch h
    · exact h

/-- A passive screen writes nothing through `currentUser`. -/
theorem writesNow_passive {x : Screen} (h : x.Passive) : x.writesNow e = false := by
  cases e with
  | session e =>
    rw [Screen.writesNow]
    cases htaken : x.session.taken e with
    | none => rfl
    | some call =>
      obtain ⟨i, cb⟩ := call
      obtain ⟨p, _, hp, rfl, _⟩ := taken_cases x.session htaken
      have hrefresh := h.calls p (List.mem_of_getElem? hp)
      rw [Option.any_some]
      generalize p.callback = cb at hrefresh
      cases cb <;> first | rfl | contradiction
  | tick id => rw [Screen.writesNow, h.timers, List.find?_nil, Option.any_none]
  | _ => rfl

/-- No write goes astray where the screens in the background are passive. -/
theorem not_misdirects (h : Apart alpha accounts w) (e : WorldEvent) : ¬w.Misdirects e := by
  cases e with
  | client k e =>
    rintro ⟨_, c, hc, user, hmember, hne, hnow⟩
    obtain ⟨d, hd, howner⟩ := h.directed.current user hmember
    have hback : w.user.isSome = true → k + 1 ≠ w.clients.length := fun _ hlast => by
      rw [Option.mem_def, List.getLast?_eq_getElem?, ← hlast, Nat.add_sub_cancel, hc,
        Option.some.injEq] at hd
      subst d
      exact hne howner.symm
    rw [writesNow_passive (h.passive k c hc hback)] at hnow
    contradiction
  | _ => exact id

theorem apart_opened (accounts : Nat → Option Store) (device : Device) (nextIdent : Nat) :
    Apart alpha accounts (opened accounts device nextIdent) := by
  refine ⟨⟨fun _ => by simp [opened], by simp [opened], by simp [opened]⟩, by simp [opened],
    fun _ => id, fun user st _ hst => ?_, by simp [opened]⟩
  have haccount : accounts user = some st := hst
  rw [start, haccount, Option.getD_some]
  exact .refl

/-- Runs in which the users sign out when only refreshes are under way. -/
theorem apart_run (device : Device) (nextIdent : Nat) {es : List WorldEvent}
    (hes : Runs.Guarded step SignsOutPassive (opened accounts device nextIdent) es)
    (hacts : Runs.Guarded step (Acts alpha) (opened accounts device nextIdent) es) :
    Apart alpha accounts (run (opened accounts device nextIdent) es) ∧
      ∀ i ∈ (run (opened accounts device nextIdent) es).log, i.account = i.owner :=
  Runs.run_invariant
    (I := fun w => Apart alpha accounts w ∧ ∀ i ∈ w.log, i.account = i.owner)
    (fun w e h hok => ⟨apart_step h.1 hok.1 hok.2,
      (well_directed_step h.1.directed h.2 e).mpr (not_misdirects h.1 e)⟩)
    (hes.and hacts) ⟨apart_opened accounts device nextIdent, by simp [opened]⟩

/-- Event `e` happens on a screen of the user in the run of `es`. -/
def Happens (w : World) (es : List WorldEvent) (user : Nat) (e : ScreenEvent) : Prop :=
  ∃ fs k, fs ++ [.client k e] <+: es ∧ ∃ c ∈ (run w fs).clients[k]?, c.owner = user

theorem acts_happens (w : World) (es : List WorldEvent) :
    Runs.Guarded step (Acts (w.Happens es)) w es := by
  rw [Runs.guarded_iff_forall_prefix]
  intro fs e hfs
  cases e with
  | client k e => exact fun c hc => ⟨fs, k, hfs, c, hc, rfl⟩
  | _ => trivial

/-- Users of one device who sign out when only refreshes are under way leave
each other's accounts alone: each write goes to the account of the user on
whose screen it was issued, and the documents of every account are what
sessions of its own user make of them, with nothing but what happens on the
screens of this user. -/
theorem accounts_apart (accounts : Nat → Option Store) (device : Device) (nextIdent : Nat)
    (es : List WorldEvent)
    (hes : Runs.Guarded step SignsOutPassive (opened accounts device nextIdent) es) :
    let w := run (opened accounts device nextIdent) es
    (∀ i ∈ w.log, i.account = i.owner) ∧ ∀ user st, w.accounts user = some st →
      Lineage ((opened accounts device nextIdent).Happens es user) (start accounts user) st := by
  obtain ⟨h, hlog⟩ := apart_run device nextIdent hes
    (acts_happens (opened accounts device nextIdent) es)
  exact ⟨hlog, fun user st hst => h.lineage hst⟩

/-- Both users delete a habit, and the first one signs out while the refresh
after it is still under way. -/
def bothDelete : List WorldEvent :=
  .loginTapped 0 :: deletesFirst 0 ++
    [.client 0 (.session (.deliver 0)), .client 0 (.session (.deliver 0)), .signOutButtonTapped,
      .loginTapped 1, .client 0 (.session (.deliver 0))] ++
    deletesFirst 1

theorem accounts_apart_both :
    let w := World.run (opened twoUsers { today := 0 } 4) bothDelete
    w.log.map (fun i => (i.owner, i.account)) =
        [(0, 0), (0, 0), (0, 0), (0, 0), (0, 0), (1, 1)] ∧
      (∀ i ∈ w.log, i.account = i.owner) ∧ ∀ user st, w.accounts user = some st →
        Lineage ((opened twoUsers { today := 0 } 4).Happens bothDelete user)
          (start twoUsers user) st :=
  ⟨by decide +kernel, accounts_apart twoUsers { today := 0 } 4 bothDelete (by decide +kernel)⟩

/-- If users sign out when only refreshes are under way, each name and each
goal in the documents of an account was there before the run or is entered
on a screen of its own user. -/
theorem stored_apart (accounts : Nat → Option Store) (device : Device) (nextIdent : Nat)
    (es : List WorldEvent)
    (hes : Runs.Guarded step SignsOutPassive (opened accounts device nextIdent) es) :
    ∀ user st, (run (opened accounts device nextIdent) es).accounts user = some st →
      st.Within (enteredBy ((opened accounts device nextIdent).Happens es user)
        (start accounts user)) := fun _ _ hst =>
  ((apart_run device nextIdent hes (acts_happens _ es)).1.lineage hst).within

/-- Client `k` creates a habit. -/
def createsHabit (k : Nat) (text : Text) : List WorldEvent :=
  [Event.addButtonTapped, .createName 0 text, .createAmount 0 3, .addHabitButtonTapped 0, .serve 0,
    .deliver 0].map fun e => .client k (.session e)

/-- Both users create a habit, and only the first one chooses a color. -/
def bothCreate : List WorldEvent :=
  .loginTapped 0 :: .client 0 (.session (.sectionColor 5)) :: createsHabit 0 ["w"] ++
    [.signOutButtonTapped, .loginTapped 1] ++ createsHabit 1 ["r"]

/-- Two users without habits. -/
def newUsers : Nat → Option Store := fun user => if user < 2 then some .signUp else none

/-- The name and the goal are the own ones.  The color is that of the other
user. -/
theorem stored_apart_both :
    let w := World.run (opened newUsers { today := 0 } 4) bothCreate
    (((w.accounts 1).bind fun st => st.habits 0).map fun doc =>
        (doc.fields.name, doc.fields.goal, doc.fields.color)) =
        some (some ["r"], some 3, some 5) ∧
      ∀ user st, w.accounts user = some st →
        st.Within (enteredBy ((opened newUsers { today := 0 } 4).Happens bothCreate user)
          (start newUsers user)) :=
  ⟨by decide +kernel, stored_apart newUsers { today := 0 } 4 bothCreate (by decide +kernel)⟩

end World

end HabitHive
