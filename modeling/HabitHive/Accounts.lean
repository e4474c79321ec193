import HabitHive.Background

/-!
# Whose documents a screen writes

The screen of a user who has signed out goes on in the background, and most
of what it does there goes through `currentUser`, which by then can be
somebody else.

`OwnRef` is the invariant of the references: a reference that a closure has
captured is one of the user of its screen.  So a write can only go astray
where `currentUser` is evaluated late, and `well_directed_iff` says exactly
when: a delete, a create, a completion or a countdown of the one user goes
on while the other is signed in (`World.Misdirects`).
-/

namespace HabitHive

/-! ## The references of a client -/

theorem forall₂_eraseIdx {α β : Type*} {R : α → β → Prop} {as : List α} {bs : List β}
    (h : List.Forall₂ R as bs) (i : Nat) : List.Forall₂ R (as.eraseIdx i) (bs.eraseIdx i) := by
  induction h generalizing i with
  | nil => simp
  | cons hab h ih =>
    cases i with
    | zero => exact h
    | succ i => exact .cons hab (ih i)

theorem forall₂_getElem? {α β : Type*} {R : α → β → Prop} {as : List α} {bs : List β}
    (h : List.Forall₂ R as bs) {i : Nat} {a : α} (ha : as[i]? = some a) :
    ∃ b, bs[i]? = some b ∧ R a b := by
  induction h generalizing i with
  | nil => simp at ha
  | cons hab h ih =>
    cases i with
    | zero =>
      obtain rfl := Option.some.inj ha
      exact ⟨_, rfl, hab⟩
    | succ i => exact ih ha

namespace Client

variable {P : Callback → Option Nat → Prop} {c : Client} {user : Option Nat} {e : ScreenEvent}

/-- Each call in flight is related to the user at whose time it was
issued. -/
def Aligned (P : Callback → Option Nat → Prop) (c : Client) : Prop :=
  List.Forall₂ P c.screen.session.callbacks c.refs

theorem refsKept_aligned (h : c.Aligned P) (e : ScreenEvent) :
    List.Forall₂ P ((c.screen.taken e).elim c.screen.session.callbacks
      fun call => c.screen.session.callbacks.eraseIdx call.1) (c.refsKept e) := by
  rw [refsKept]
  cases c.screen.taken e with
  | none => exact h
  | some call => exact forall₂_eraseIdx h call.1

/-- The calls that an event has issued. -/
theorem issued_eq (h : c.Aligned P) {y : Screen} {cbs : List Callback}
    (hcalls : y.session.callbacks = ((c.screen.taken e).elim c.screen.session.callbacks
      fun call => c.screen.session.callbacks.eraseIdx call.1) ++ cbs) : c.issued e y = cbs := by
  rw [issued, List.map_drop]
  change y.session.callbacks.drop _ = _
  rw [hcalls, ← (refsKept_aligned h e).length_eq, List.drop_left]

theorem aligned_after (h : c.Aligned P) {y : Screen} {background : Bool}
    (hturn : Turnover background (c.screen.taken e) c.screen.session y.session)
    (hnew : ∀ cb : Callback, (c.screen.taken e = none → cb.usesDocRef = false) →
      (background = true → ∀ w, cb.captures w = false) →
      P cb (if cb.usesDocRef then c.ref e else user)) : (c.after user e y).Aligned P := by
  obtain ⟨cbs, hcalls, hread, hcaptures⟩ := hturn
  rw [Aligned, after, issued_eq h hcalls, hcalls]
  refine List.rel_append (refsKept_aligned h e)
    (List.forall₂_map_right_iff.mpr (List.forall₂_same.mpr ?_))
  exact fun cb hcb => hnew cb (fun hnone => hread hnone cb hcb) fun hback =>
    (hcaptures hback).1 cb hcb

/-- The reference of the call that an event takes out of flight. -/
theorem ref_of_taken (h : c.Aligned P) {call : Nat × Callback}
    (htaken : c.screen.taken e = some call) : ∃ ref, c.ref e = ref ∧ P call.2 ref := by
  obtain ⟨i, cb⟩ := call
  obtain ⟨event, hevent⟩ : ∃ event, c.screen.session.taken event = some (i, cb) := by
    cases e <;> first | exact ⟨_, htaken⟩ | contradiction
  obtain ⟨p, _, hp, rfl, _⟩ := taken_cases c.screen.session hevent
  obtain ⟨ref, href, hP⟩ := forall₂_getElem? h (i := i) (a := p.callback)
    (by rw [State.callbacks, List.getElem?_map, hp, Option.map_some])
  exact ⟨ref, by rw [Client.ref, htaken, Option.bind_some, href, Option.join_some], hP⟩

end Client

/-! ## One event of a client -/

namespace World

section IssueAll

variable (owner : Nat) (writes : Write → Option Nat) (ws : List Write) (w : World)

/-- Issuing writes leaves all but the accounts, the log and the fault. -/
theorem issueAll_frame :
    (issueAll owner writes ws w).clients = w.clients ∧ (issueAll owner writes ws w).user = w.user ∧
      (issueAll owner writes ws w).device = w.device ∧
      (issueAll owner writes ws w).nextIdent = w.nextIdent ∧
      ((issueAll owner writes ws w).crashed = none → w.crashed = none) := by
  induction ws generalizing w with
  | nil => exact ⟨rfl, rfl, rfl, rfl, id⟩
  | cons v vs ih =>
    rw [issueAll]
    split
    · exact ⟨rfl, rfl, rfl, rfl, by simp⟩
    · exact ih _

/-- What is issued, and all of it where each write has an account. -/
theorem issueAll_log : ∃ sent : List Issued, (issueAll owner writes ws w).log = w.log ++ sent ∧
    (∀ i ∈ sent, i.owner = owner ∧ i.write ∈ ws ∧ writes i.write = some i.account) ∧
      ((∀ v ∈ ws, (writes v).isSome = true) → ∀ v ∈ ws, ∃ i ∈ sent, i.write = v) := by
  induction ws generalizing w with
  | nil => exact ⟨[], by simp [issueAll], by simp, by simp⟩
  | cons v vs ih =>
    rw [issueAll]
    split
    · next hnone => exact ⟨[], by simp, by simp, fun h => by simp [hnone] at h⟩
    · next account haccount =>
      obtain ⟨sent, hlog, hsent, hall⟩ := ih (w.issue owner account v)
      refine ⟨{ owner, account, write := v } :: sent, by simp [hlog], ?_, fun h v' hv' => ?_⟩
      · intro i hi
        rcases List.mem_cons.mp hi with rfl | hi
        · exact ⟨rfl, List.mem_cons_self .., haccount⟩
        · obtain ⟨howner, hmem, hwrites⟩ := hsent i hi
          exact ⟨howner, List.mem_cons_of_mem _ hmem, hwrites⟩
      · rcases List.mem_cons.mp hv' with rfl | hv'
        · exact ⟨_, List.mem_cons_self .., rfl⟩
        · obtain ⟨i, hi, hwrite⟩ := hall (fun u hu => h u (List.mem_cons_of_mem _ hu)) v' hv'
          exact ⟨i, List.mem_cons_of_mem _ hi, hwrite⟩

/-- The accounts where all writes go to one. -/
theorem issueAll_accounts {account : Nat} (h : ∀ v ∈ ws, writes v = some account) :
    (issueAll owner writes ws w).accounts =
        Function.update w.accounts account ((w.accounts account).map (·.applyAll ws)) ∧
      (issueAll owner writes ws w).crashed = w.crashed := by
  induction ws generalizing w with
  | nil => simp [issueAll]
  | cons v vs ih =>
    have hv := h v (List.mem_cons_self ..)
    obtain ⟨haccounts, hcrashed⟩ :=
      ih (w.issue owner account v) fun u hu => h u (List.mem_cons_of_mem _ hu)
    rw [issueAll, hv]
    have hissue : (w.issue owner account v).accounts =
        Function.update w.accounts account ((w.accounts account).map (·.apply v)) := rfl
    refine ⟨haccounts.trans ?_, hcrashed⟩
    rw [hissue, Function.update_idem, Function.update_self, Option.map_map]
    rfl

/-- The log where all writes go to one account. -/
theorem issueAll_log_eq {account : Nat} (h : ∀ v ∈ ws, writes v = some account) :
    (issueAll owner writes ws w).log = w.log ++ ws.map (Issued.mk owner account) := by
  induction ws generalizing w with
  | nil => simp [issueAll]
  | cons v vs ih =>
    rw [issueAll, h v (List.mem_cons_self ..)]
    dsimp only
    rw [ih _ fun u hu => h u (List.mem_cons_of_mem _ hu)]
    simp

end IssueAll

variable {w : World} {k : Nat} {c : Client} {e : ScreenEvent}

/-- What an event of a client leaves apart from accounts and log. -/
theorem perform_frame :
    (w.perform k c e).clients = w.clients.set k (c.after w.user e (w.stepped c e)) ∧
      (w.perform k c e).user = w.user ∧
      (w.perform k c e).device = (w.adopt k c e (w.stepped c e)).device ∧
      (w.perform k c e).nextIdent = (w.stepped c e).session.nextIdent ∧
      ((w.perform k c e).crashed = none → (w.stepped c e).session.crashed = none) := by
  have h := issueAll_frame c.owner (c.writes w.user e)
    ((w.stepped c e).session.journal.drop c.screen.session.journal.length)
    (w.adopt k c e (w.stepped c e))
  rw [perform]
  split
  · exact ⟨h.1, h.2.1, h.2.2.1, h.2.2.2.1, by simp⟩
  · exact h

/-- The writes that an event of a client issues are those that it adds to
the journal of its screen. -/
theorem perform_log {ws : List Write}
    (hjournal : (w.stepped c e).session.journal = c.screen.session.journal ++ ws) :
    ∃ sent : List Issued, (w.perform k c e).log = w.log ++ sent ∧
      (∀ i ∈ sent, i.owner = c.owner ∧ i.write ∈ ws ∧ c.writes w.user e i.write = some i.account) ∧
        ((∀ v ∈ ws, (c.writes w.user e v).isSome = true) → ∀ v ∈ ws, ∃ i ∈ sent, i.write = v) := by
  have h := issueAll_log c.owner (c.writes w.user e) ws (w.adopt k c e (w.stepped c e))
  rw [perform, hjournal, List.drop_left]
  split <;> exact h

/-- An event that is not possible for a client changes nothing. -/
theorem client_cases (w : World) (k : Nat) (e : ScreenEvent) :
    w.client k e = w ∧ (∀ c ∈ w.clients[k]?, ¬w.Possible k e) ∨
      ∃ c, w.clients[k]? = some c ∧ w.Possible k e ∧ w.client k e = w.perform k c e := by
  rw [client]
  cases hc : w.clients[k]? with
  | none => exact Or.inl ⟨rfl, by simp⟩
  | some c =>
    by_cases hpossible : w.Possible k e
    · exact Or.inr ⟨c, rfl, hpossible, if_pos hpossible⟩
    · exact Or.inl ⟨if_neg hpossible, fun _ _ => hpossible⟩

theorem taken_load (ref : Option Nat) (x : Screen) : (w.load ref x).taken e = x.taken e := by
  cases e <;> rfl

theorem writesNow_load (ref : Option Nat) (x : Screen) :
    (w.load ref x).writesNow e = x.writesNow e := by
  cases e <;> rfl

/-- The device does not say which call is taken out, nor whether its
callback writes. -/
theorem stepped_turnover (hrunning : c.screen.session.crashed = none)
    (he : e ≠ .session .relaunch) :
    Turnover e.isBackground (c.screen.taken e) c.screen.session (w.stepped c e).session := by
  rw [← taken_load (w := w) (c.reads w.user e)]
  exact Screen.turnover_step (x := w.load (c.reads w.user e) c.screen) hrunning he

theorem stepped_writes (hrunning : c.screen.session.crashed = none) (he : e.isBackground = true) :
    Writes (c.screen.taken e) (c.screen.writesNow e) c.screen.session
      (w.stepped c e).session := by
  rw [← taken_load (w := w) (c.reads w.user e), ← writesNow_load (w := w) (c.reads w.user e)]
  exact Screen.journal_background (x := w.load (c.reads w.user e) c.screen) hrunning he

end World

/-! ## References that are captured -/

/-- A reference that a callback captures is one of the owner. -/
def OwnRef (owner : Nat) (cb : Callback) (ref : Option Nat) : Prop :=
  (∃ w, cb.captures w = true) → ref = some owner

namespace World

/-- What holds of the clients of a device. -/
structure Directed (w : World) : Prop where
  running : w.crashed = none → ∀ c ∈ w.clients, c.screen.session.crashed = none
  refs : ∀ c ∈ w.clients, c.Aligned (OwnRef c.owner)
  current : ∀ user ∈ w.user, ∃ c ∈ w.clients.getLast?, c.owner = user

/-- A client whose user has signed out writes through `currentUser` while
somebody else is signed in. -/
def Misdirects (w : World) : WorldEvent → Prop
  | .client k e => w.crashed = none ∧
      ∃ c ∈ w.clients[k]?, ∃ user ∈ w.user, user ≠ c.owner ∧ c.screen.writesNow e = true
  | _ => False

variable {w : World} {k : Nat} {c : Client} {e : ScreenEvent}

/-- The user acts on the screen of the last sign-in. -/
theorem Directed.owner (h : w.Directed) (hc : w.clients[k]? = some c) (he : e.isBackground = false)
    (hpossible : w.Possible k e) : w.user = some c.owner ∧ e.isShared = false := by
  rcases hpossible with hback | ⟨huser, hlast, hshared⟩
  · rw [he] at hback
    contradiction
  · obtain ⟨user, huser⟩ := Option.isSome_iff_exists.mp huser
    obtain ⟨d, hd, howner⟩ := h.current user huser
    rw [Option.mem_def, List.getLast?_eq_getElem?, ← hlast, Nat.add_sub_cancel, hc,
      Option.some.injEq] at hd
    subst d
    exact ⟨huser.trans (congrArg some howner.symm), hshared⟩

theorem ScreenEvent.ne_relaunch {e : ScreenEvent} (h : e.isBackground = true ∨ e.isShared = false) :
    e ≠ .session .relaunch := by
  rintro rfl
  rcases h with h | h <;> contradiction

/-- The last of a list of which one element is replaced. -/
theorem getLast?_set {α : Type*} {l : List α} {k : Nat} {a : α} (hk : k < l.length) :
    (l.set k a).getLast? = if k + 1 = l.length then some a else l.getLast? := by
  rw [List.getLast?_eq_getElem?, List.length_set, List.getElem?_set, List.getLast?_eq_getElem?]
  split_ifs <;> first | rfl | omega

theorem directed_perform (h : w.Directed) (hcrashed : w.crashed = none)
    (hc : w.clients[k]? = some c) (hpossible : w.Possible k e) : (w.perform k c e).Directed := by
  obtain ⟨hclients, huser, _, _, hrunning⟩ := perform_frame (w := w) (k := k) (c := c) (e := e)
  have hmem := List.mem_of_getElem? hc
  have hne := ScreenEvent.ne_relaunch (hpossible.imp_right fun hp => hp.2.2)
  have hturn := stepped_turnover (w := w) (h.running hcrashed c hmem) hne
  refine ⟨fun hnone d hd => ?_, fun d hd => ?_, fun user hmember => ?_⟩
  · rw [hclients] at hd
    rcases List.mem_or_eq_of_mem_set hd with hd | rfl
    · exact h.running hcrashed d hd
    · exact hrunning hnone
  · rw [hclients] at hd
    rcases List.mem_or_eq_of_mem_set hd with hd | rfl
    · exact h.refs d hd
    · refine Client.aligned_after (h.refs c hmem) hturn fun cb hread hcaptures hheld => ?_
      obtain ⟨v, hv⟩ := hheld
      cases hback : e.isBackground with
      | true =>
        rw [hcaptures hback v] at hv
        contradiction
      | false =>
        -- the user is signed in, and the call is no read of a document
        have hdoc : cb.usesDocRef = false := by
          cases cb <;> first | rfl | contradiction
        rw [hdoc]
        exact (h.owner hc hback hpossible).1
  · rw [huser] at hmember
    obtain ⟨d, hd, howner⟩ := h.current user hmember
    have hk : k < w.clients.length := (List.getElem?_eq_some_iff.mp hc).1
    rw [hclients, getLast?_set hk]
    split
    · next hlast =>
      refine ⟨_, rfl, ?_⟩
      rw [Option.mem_def, List.getLast?_eq_getElem?, ← hlast, Nat.add_sub_cancel, hc,
        Option.some.injEq] at hd
      subst d
      exact howner
    · exact ⟨d, hd, howner⟩

/-- A client that has just been opened. -/
theorem newClient_aligned (P : Callback → Option Nat → Prop) (w : World) (user : Nat) :
    (w.newClient user).Aligned P := .nil

theorem directed_transitionToHome (h : w.Directed) (user : Nat) :
    (w.transitionToHome user).Directed where
  running hcrashed d hd := by
    rcases List.mem_append.mp hd with hd | hd
    · exact h.running hcrashed d hd
    · rw [List.mem_singleton.mp hd]
      rfl
  refs d hd := by
    rcases List.mem_append.mp hd with hd | hd
    · exact h.refs d hd
    · rw [List.mem_singleton.mp hd]
      exact newClient_aligned _ w user
  current user' huser := ⟨w.newClient user, by simp [transitionToHome], Option.some.inj huser⟩

theorem directed_relaunch (w : World) : w.relaunch.Directed where
  running _ d hd := by
    obtain ⟨user, _, rfl⟩ := List.mem_map.mp hd
    rfl
  refs d hd := by
    obtain ⟨user, _, rfl⟩ := List.mem_map.mp hd
    exact newClient_aligned _ w user
  current user huser := by
    have huser' : w.user = some user := huser
    exact ⟨w.newClient user, by simp [relaunch, huser'], rfl⟩

theorem directed_step (h : w.Directed) (e : WorldEvent) : (w.step e).Directed := by
  rw [step]
  split
  · next hcrashed =>
    cases e with
    | loginTapped user =>
      rw [handle, loginTapped]
      split
      · exact directed_transitionToHome h user
      · exact h
    | signUpTapped user =>
      rw [handle, signUpTapped]
      split
      · exact directed_transitionToHome (w := w.createUser user)
          ⟨h.running, h.refs, h.current⟩ user
      · exact h
    | signOutButtonTapped => exact ⟨h.running, h.refs, by simp [handle]⟩
    | relaunch => exact directed_relaunch w
    | nextDay => exact ⟨h.running, h.refs, h.current⟩
    | client k e =>
      rcases client_cases w k e with ⟨hw, _⟩ | ⟨c, hc, hpossible, hw⟩ <;> rw [handle, hw]
      · exact h
      · exact directed_perform h hcrashed hc hpossible
  · split
    · exact directed_relaunch w
    · exact h

/-- Nothing is taken out of the log. -/
theorem log_step (w : World) (e : WorldEvent) : w.log <+: (w.step e).log := by
  rw [step]
  split
  · cases e with
    | loginTapped user =>
      rw [handle, loginTapped]
      split <;> exact List.prefix_rfl
    | signUpTapped user =>
      rw [handle, signUpTapped]
      split <;> exact List.prefix_rfl
    | signOutButtonTapped => exact List.prefix_rfl
    | relaunch => exact List.prefix_rfl
    | nextDay => exact List.prefix_rfl
    | client k e =>
      rcases client_cases w k e with ⟨hw, _⟩ | ⟨c, _, _, hw⟩
      · exact ⟨[], by rw [List.append_nil, handle, hw]⟩
      · obtain ⟨ws, _, hjournal⟩ := Screen.journal_step (w.load (c.reads w.user e) c.screen) e
        obtain ⟨sent, hlog, _⟩ := perform_log (w := w) (k := k) hjournal
        exact ⟨sent, by rw [handle, hw, hlog]⟩
  · split <;> exact List.prefix_rfl

/-- A fresh write goes to the user who is signed in. -/
theorem writes_of_fresh {v : Write} (hv : Fresh (c.screen.taken e) v) :
    c.writes w.user e v = w.user := by
  rw [Client.writes, hv]
  rfl

/-- The other writes go to the owner. -/
theorem writes_of_captured (h : w.Directed) (hc : c ∈ w.clients) {v : Write}
    (hv : ¬Fresh (c.screen.taken e) v) : c.writes w.user e v = some c.owner := by
  rw [Fresh, Bool.not_eq_false] at hv
  rw [Client.writes, if_pos hv]
  cases htaken : c.screen.taken e with
  | none =>
    rw [htaken] at hv
    contradiction
  | some call =>
    obtain ⟨ref, href, hheld⟩ := Client.ref_of_taken (h.refs c hc) htaken
    rw [htaken] at hv
    rw [href]
    exact hheld ⟨v, hv⟩

theorem writesNow_background {x : Screen} (h : x.writesNow e = true) : e.isBackground = true := by
  cases e with
  | session e => cases e <;> first | rfl | contradiction
  | _ => first | rfl | contradiction

/-- An event of a client issues all its writes to the owner, unless somebody
else is signed in and it writes through `currentUser`. -/
theorem well_directed_perform (h : w.Directed) (hlog : ∀ i ∈ w.log, i.account = i.owner)
    (hcrashed : w.crashed = none) (hc : w.clients[k]? = some c) (hpossible : w.Possible k e) :
    (∀ i ∈ (w.perform k c e).log, i.account = i.owner) ↔
      ¬∃ user ∈ w.user, user ≠ c.owner ∧ c.screen.writesNow e = true := by
  have hmem := List.mem_of_getElem? hc
  cases hback : e.isBackground with
  | false =>
    obtain ⟨howner, _⟩ := h.owner hc hback hpossible
    obtain ⟨ws, _, hjournal⟩ := Screen.journal_step (w.load (c.reads w.user e) c.screen) e
    obtain ⟨sent, hsent, hwrites, _⟩ := perform_log (w := w) (k := k) hjournal
    refine iff_of_true (fun i hi => ?_) ?_
    · rw [hsent] at hi
      rcases List.mem_append.mp hi with hi | hi
      · exact hlog i hi
      · obtain ⟨hi, _, haccount⟩ := hwrites i hi
        rw [hi]
        by_cases hfresh : Fresh (c.screen.taken e) i.write
        · rw [writes_of_fresh hfresh, howner] at haccount
          exact (Option.some.inj haccount).symm
        · rw [writes_of_captured h hmem hfresh] at haccount
          exact (Option.some.inj haccount).symm
    · rintro ⟨user, huser, hne, _⟩
      exact hne (Option.some.inj (huser.symm.trans howner))
  | true =>
    obtain ⟨ws, hjournal, hnow⟩ := stepped_writes (w := w) (h.running hcrashed c hmem) hback
    obtain ⟨sent, hsent, hwrites, hall⟩ := perform_log (w := w) (k := k) hjournal
    rw [hsent]
    constructor
    · rintro hgood ⟨user, huser, hne, hlate⟩
      obtain ⟨v, hv, hfresh⟩ := hnow.mpr hlate
      have htotal : ∀ v ∈ ws, (c.writes w.user e v).isSome = true := by
        intro v _
        by_cases hv : Fresh (c.screen.taken e) v
        · rw [writes_of_fresh hv, huser, Option.isSome_some]
        · rw [writes_of_captured h hmem hv, Option.isSome_some]
      obtain ⟨i, hi, rfl⟩ := hall htotal v hv
      obtain ⟨howner, _, haccount⟩ := hwrites i hi
      rw [writes_of_fresh hfresh, huser, Option.some.injEq] at haccount
      exact hne (haccount.trans ((hgood i (List.mem_append_right _ hi)).trans howner))
    · intro hnone i hi
      rcases List.mem_append.mp hi with hi | hi
      · exact hlog i hi
      · obtain ⟨howner, hv, haccount⟩ := hwrites i hi
        rw [howner]
        by_cases hfresh : Fresh (c.screen.taken e) i.write
        · rw [writes_of_fresh hfresh] at haccount
          by_contra hne
          exact hnone ⟨i.account, haccount, hne, hnow.mp ⟨i.write, hv, hfresh⟩⟩
        · rw [writes_of_captured h hmem hfresh] at haccount
          exact (Option.some.inj haccount).symm

theorem well_directed_step (h : w.Directed) (hlog : ∀ i ∈ w.log, i.account = i.owner)
    (e : WorldEvent) : (∀ i ∈ (w.step e).log, i.account = i.owner) ↔ ¬w.Misdirects e := by
  have hsame : (w.step e).log = w.log → ¬w.Misdirects e →
      ((∀ i ∈ (w.step e).log, i.account = i.owner) ↔ ¬w.Misdirects e) := fun hsame hnot =>
    iff_of_true (hsame ▸ hlog) hnot
  by_cases hcrashed : w.crashed = none
  · have hstep : w.step e = w.handle e := by rw [step, if_pos hcrashed]
    cases e with
    | loginTapped user =>
      refine hsame ?_ id
      rw [hstep, handle, loginTapped]
      split <;> rfl
    | signUpTapped user =>
      refine hsame ?_ id
      rw [hstep, handle, signUpTapped]
      split <;> rfl
    | signOutButtonTapped => exact hsame (by rw [hstep, handle]) id
    | relaunch => exact hsame (by rw [hstep, handle, relaunch]) id
    | nextDay => exact hsame (by rw [hstep, handle]) id
    | client k e =>
      rcases client_cases w k e with ⟨hw, hnot⟩ | ⟨c, hc, hpossible, hw⟩ <;>
        rw [handle, hw] at hstep
      · refine hsame (by rw [hstep]) ?_
        rintro ⟨_, c, hc, _, _, _, hnow⟩
        exact hnot c hc (Or.inl (writesNow_background hnow))
      · have hmis : w.Misdirects (.client k e) ↔
            ∃ user ∈ w.user, user ≠ c.owner ∧ c.screen.writesNow e = true := by
          simp [Misdirects, hcrashed, hc]
        rw [hstep, hmis]
        exact well_directed_perform h hlog hcrashed hc hpossible
  · have hlogs : (w.step e).log = w.log := by
      rw [step, if_neg hcrashed]
      split <;> rfl
    refine hsame hlogs ?_
    cases e <;> first | exact id | exact fun hmis => hcrashed hmis.1

/-- In a run of any number of users on one device, some write goes to an
account other than that of the user on whose screen it was issued if and
only if a screen writes through `currentUser` while somebody else is signed
in. -/
theorem well_directed_iff (accounts : Nat → Option Store) (device : Device) (nextIdent : Nat)
    (es : List WorldEvent) :
    (∀ i ∈ (run (opened accounts device nextIdent) es).log, i.account = i.owner) ↔
      Runs.Guarded step (fun w e => ¬w.Misdirects e) (opened accounts device nextIdent) es := by
  have hes : ∀ e ∈ es, (fun _ : WorldEvent => True) e := fun _ _ => trivial
  have hdich := Runs.Guarded.dichotomy step (fun w e => ¬w.Misdirects e)
    (fun w => w.Directed ∧ ∀ i ∈ w.log, i.account = i.owner)
    (fun w => ¬∀ i ∈ w.log, i.account = i.owner)
    (fun w e h _ hok => ⟨directed_step h.1 e, (well_directed_step h.1 h.2 e).mpr hok⟩)
    (fun w e h _ hok hgood => hok ((well_directed_step h.1 h.2 e).mp hgood))
    (fun w e h _ hgood => h fun i hi => hgood i ((log_step w e).subset hi))
    (s := opened accounts device nextIdent) hes
    ⟨⟨fun _ => by simp [opened], by simp [opened], by simp [opened]⟩, by simp [opened]⟩
  rcases hdich with ⟨hguarded, _, hgood⟩ | ⟨hnot, hbad⟩
  · exact iff_of_true hgood hguarded
  · exact iff_of_false hbad hnot

/-- Two users with two habits each. -/
def twoUsers : Nat → Option Store := fun user =>
  if user < 2 then some (.ofEntries [.sample 1, .sample 2]) else none

/-- Client `k` loads its list, and its first habit is deleted. -/
def deletesFirst (k : Nat) : List WorldEvent :=
  [Event.viewDidLoad, .serve 0, .deliver 0, .deliver 0, .serve 0, .deliver 0, .serve 0,
    .deliver 0].map (fun e => .client k (.session e)) ++
    [.client k (.cellForItemAt 0 0), .client k (.handleLongPress 0), .client k (.deleteHabit 0)]

/-- A delete that goes on after the sign-out takes the counter of the next
user down to one. -/
example :
    let w := World.run (opened twoUsers { today := 0 } 4) (.loginTapped 0 :: deletesFirst 0 ++
      [.signOutButtonTapped, .loginTapped 1, .client 0 (.session (.deliver 0))])
    w.log.map (fun i => (i.owner, i.account)) = [(0, 0), (0, 0), (0, 1)] ∧
      (w.accounts 1).map (·.user.habitCounter) = some 1 := by
  decide +kernel

end World

end HabitHive
