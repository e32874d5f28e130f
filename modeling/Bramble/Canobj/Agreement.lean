import Bramble.Canobj.Model
import Bramble.Lib.Lists
import Bramble.Session.Replies

/-!
# Which request an answer belongs to

An answer names the object and the addresses of its request, and nothing else.  But every request gets
one answer, and the sockets keep the order.

* `Alone`                    a guard: a call starts only when no request for the same object is in
                             flight, and none of its answers is in flight or in the process's socket;
* `Own`                      the invariant of a call: the first answer it will see is its own;
* `replies_agree`            then every call that succeeds took the answer to its own request;
* `replies_agree_fails`      otherwise a read can return the answer to an earlier write.
-/

namespace Bramble
open CanNet

/-- The object is used by one call at a time, from its request to the arrival of the answer. -/
def Alone (s : CanNet) : CanAct → Prop
  | .call p dst objid _ =>
    (∀ e ∈ s.toFw, ¬ (e.2.dst = dst ∧ e.2.object = objid)) ∧
    (∀ e ∈ s.toProcs, ¬ (e.2.src = dst ∧ e.2.object = objid)) ∧
    ∀ q ∈ s.procs[p]?, ∀ e ∈ q.rxq, ¬ (e.2.src = dst ∧ e.2.object = objid)
  | _ => True

instance (s : CanNet) : ∀ a, Decidable (Alone s a)
  | .call _ _ _ _ => inferInstanceAs (Decidable (_ ∧ _ ∧ _))
  | .spawn | .toFw _ | .toProcs _ | .recv _ | .giveUp _ => inferInstanceAs (Decidable True)

/-- `m` asks for the object -/
def Canobj.Asked (obj : Canobj) (m : CanMsg) : Prop := m.dst = obj.dst ∧ m.object = obj.objid

/-- `m` can be an answer about the object -/
def Canobj.Told (obj : Canobj) (m : CanMsg) : Prop := m.src = obj.dst ∧ m.object = obj.objid

/-- The call `o` will take the answer to its own request: that is the first one in the socket; or none
is there yet, it is still to come, and no other one is. -/
inductive Own (requests replies received : List (Nat × CanMsg)) (o : Pending) : Prop
  | here (pre post : List (Nat × CanMsg)) (e : Nat × CanMsg) (hrxq : received = pre ++ e :: post)
      (hpre : ∀ e' ∈ pre, ¬ o.obj.Told e'.2) (he : o.obj.matched e.2 = true) (hid : e.1 = o.id)
  | coming (hrxq : ∀ e ∈ received, ¬ o.obj.Told e.2)
      (hrequests : ∀ e ∈ requests, o.obj.Asked e.2 → e.1 = o.id)
      (hreplies : ∀ e ∈ replies, o.obj.Told e.2 → e.1 = o.id)
      (hone : (∃ e ∈ requests, o.obj.Asked e.2) ∨ ∃ e ∈ replies, o.obj.Told e.2)

structure Honest (s : CanNet) : Prop where
  fws : ∀ a, (s.fws a).srcaddr = a
  requests : ∀ e ∈ s.toFw, e.2.src = s.me ∧ (e.2.type = .ro ∨ e.2.type = .wo)
  own : ∀ q ∈ s.procs, ∀ o, q.op = some o → o.obj.src = s.me ∧ Own s.toFw s.toProcs q.rxq o
  answers : ∀ e ∈ s.answers, e.2.dst = s.me
  flight : ∀ e ∈ s.toProcs, e ∈ s.answers
  sockets : ∀ q ∈ s.procs, ∀ e ∈ q.rxq, e ∈ s.answers
  done : ∀ o ∈ s.done, s.Agrees o

section
variable {s t : CanNet}

theorem finish_ok {c : Call} {m : CanMsg} {bs : List UInt8} (h : c.finish m = .ok bs) :
    m.type = .ack ∧ ∀ len, c = .read len → bs = m.data.bytes := by
  cases c with
  | write data =>
    simp only [Call.finish] at h
    split at h
    · rename_i ht
      exact ⟨ht, fun len hc => by cases hc⟩
    · cases h
    · cases h
  | read len =>
    simp only [Call.finish] at h
    split at h
    · rename_i ht
      by_cases hlen : len < m.dlen
      · rw [if_pos hlen] at h
        cases h
      · rw [if_neg hlen] at h
        exact ⟨ht, fun _ _ => (Except.ok.inj h).symm⟩
    · cases h
    · cases h

theorem CanNet.Agrees.mono {s t : CanNet} {o : Outcome} (h : s.Agrees o)
    (hsub : ∀ e ∈ s.answers, e ∈ t.answers) : t.Agrees o := by
  intro bs hbs
  obtain ⟨h1, h2, h3⟩ := h bs hbs
  exact ⟨h1, hsub _ h2, h3⟩

theorem Canobj.request_type {obj : Canobj} {c : Call} {m : CanMsg} (h : obj.request c = .ok m) :
    m.type = .ro ∨ m.type = .wo := by
  cases c with
  | write data =>
    unfold Canobj.request at h
    by_cases hlen : data.length ≤ 8
    · simp only [dif_pos hlen] at h
      cases h
      exact .inr rfl
    · simp only [dif_neg hlen] at h
      cases h
  | read len =>
    unfold Canobj.request at h
    by_cases hlen : len < 0 ∨ 8 < len
    · simp only [if_pos hlen] at h
      cases h
    · simp only [if_neg hlen] at h
      cases h
      exact .inl rfl

/-! ## the answer of a call -/

section
variable {requests replies rxq : List (Nat × CanMsg)} {o : Pending}

/-- A request for another object, or for this one after the answer has come, is of no concern. -/
theorem Own.request (h : Own requests replies rxq o) {e : Nat × CanMsg}
    (he : o.obj.Asked e.2 → (∀ e' ∈ requests, ¬ o.obj.Asked e'.2) ∧ ∀ e' ∈ replies, ¬ o.obj.Told e'.2) :
    Own (requests ++ [e]) replies rxq o := by
  cases h with
  | here pre post e' hrxq hpre he' hid => exact .here pre post e' hrxq hpre he' hid
  | coming hrxq hrequests hreplies hone =>
    refine .coming hrxq (fun e' he' hasked => ?_) hreplies ?_
    · rcases List.mem_append.mp he' with he' | he'
      · exact hrequests e' he' hasked
      · rw [List.mem_singleton.mp he'] at hasked
        obtain ⟨hreq, hrep⟩ := he hasked
        rcases hone with ⟨e1, h1, hasked1⟩ | ⟨e1, h1, htold1⟩
        · exact absurd hasked1 (hreq e1 h1)
        · exact absurd htold1 (hrep e1 h1)
    · exact hone.imp (fun ⟨e1, h1, hasked1⟩ => ⟨e1, List.mem_append_left _ h1, hasked1⟩) id

/-- A request is answered. -/
theorem Own.answer (h : Own requests replies rxq o) {i : Nat} {e : Nat × CanMsg} {r : CanMsg}
    (hi : requests[i]? = some e) (hr : o.obj.Told r ↔ o.obj.Asked e.2) :
    Own (requests.eraseIdx i) (replies ++ [(e.1, r)]) rxq o := by
  cases h with
  | here pre post e' hrxq hpre he' hid => exact .here pre post e' hrxq hpre he' hid
  | coming hrxq hrequests hreplies hone =>
    refine .coming hrxq (fun e' he' => hrequests e' (List.mem_of_mem_eraseIdx he'))
      (fun e' he' htold => ?_) ?_
    · rcases List.mem_append.mp he' with he' | he'
      · exact hreplies e' he' htold
      · rw [List.mem_singleton.mp he'] at htold ⊢
        exact hrequests e (List.mem_of_getElem? hi) (hr.mp htold)
    · rcases hone with ⟨e1, h1, hasked⟩ | ⟨e1, h1, htold⟩
      · rcases eq_or_mem_eraseIdx hi h1 with rfl | h1
        · exact .inr ⟨_, List.mem_append_right _ (List.mem_singleton_self _), hr.mpr hasked⟩
        · exact .inl ⟨e1, h1, hasked⟩
      · exact .inr ⟨e1, List.mem_append_left _ h1, htold⟩

/-- An answer arrives in the socket. -/
theorem Own.arrive (h : Own requests replies rxq o) {i : Nat} {e : Nat × CanMsg}
    (hi : replies[i]? = some e) (he : o.obj.Told e.2 → o.obj.matched e.2 = true) :
    Own requests (replies.eraseIdx i) (rxq ++ [e]) o := by
  cases h with
  | here pre post e' hrxq hpre he' hid =>
    refine .here pre (post ++ [e]) e' ?_ hpre he' hid
    rw [hrxq, List.append_assoc, List.cons_append]
  | coming hrxq hrequests hreplies hone =>
    by_cases htold : o.obj.Told e.2
    · exact .here rxq [] e rfl hrxq (he htold) (hreplies e (List.mem_of_getElem? hi) htold)
    · refine .coming (fun e' he' => ?_) hrequests
        (fun e' he' => hreplies e' (List.mem_of_mem_eraseIdx he')) (hone.imp id ?_)
      · rcases List.mem_append.mp he' with he' | he'
        · exact hrxq e' he'
        · rw [List.mem_singleton.mp he']
          exact htold
      · rintro ⟨e1, h1, htold1⟩
        rcases eq_or_mem_eraseIdx hi h1 with rfl | h1
        · exact absurd htold1 htold
        · exact ⟨e1, h1, htold1⟩

/-- The message that the call takes is the answer to its request. -/
theorem Own.take {e : Nat × CanMsg} (h : Own requests replies (e :: rxq) o)
    (he : o.obj.matched e.2 = true) : e.1 = o.id := by
  have htold : o.obj.Told e.2 := (Canobj.matched_iff.mp he).2
  cases h with
  | here pre post e' hrxq hpre he' hid =>
    cases pre with
    | nil =>
      obtain ⟨rfl, _⟩ := List.cons.inj hrxq
      exact hid
    | cons x pre =>
      obtain ⟨rfl, _⟩ := List.cons.inj hrxq
      exact absurd htold (hpre e List.mem_cons_self)
  | coming hrxq => exact absurd htold (hrxq e List.mem_cons_self)

/-- A message that the call passes over is none. -/
theorem Own.skip {e : Nat × CanMsg} (h : Own requests replies (e :: rxq) o)
    (he : ¬ o.obj.matched e.2 = true) : Own requests replies rxq o := by
  cases h with
  | here pre post e' hrxq hpre he' hid =>
    cases pre with
    | nil =>
      obtain ⟨rfl, _⟩ := List.cons.inj hrxq
      exact absurd he' he
    | cons x pre =>
      exact .here pre post e' (List.cons.inj hrxq).2
        (fun e1 h1 => hpre e1 (List.mem_cons_of_mem _ h1)) he' hid
  | coming hrxq hrequests hreplies hone =>
    exact .coming (fun e1 h1 => hrxq e1 (List.mem_cons_of_mem _ h1)) hrequests hreplies hone

end

/-! ## steps -/

theorem Honest.call (h : Honest s) {p : Nat} {dst : Addr} {objid : UInt8} {c : Call}
    (hg : Alone s (.call p dst objid c)) (hs : s.call p ⟨s.me, dst, objid⟩ c = some t) :
    Honest t := by
  obtain ⟨hfw, hpr, hrx⟩ := hg
  unfold CanNet.call at hs
  split at hs
  · rename_i rxq hp
    split at hs
    · rename_i m hm
      cases hs
      obtain ⟨hmsrc, hmdst, hmobj⟩ := Canobj.request_ok hm
      refine ⟨h.fws, fun e he => ?_, fun q hq o ho => ?_, h.answers, h.flight, fun q hq e he => ?_,
        h.done⟩
      · rcases List.mem_append.mp he with he | he
        · exact h.requests e he
        · rw [List.mem_singleton.mp he]
          exact ⟨hmsrc, Canobj.request_type hm⟩
      · rcases List.mem_or_eq_of_mem_set hq with hq | rfl
        · obtain ⟨hsrc, hown⟩ := h.own q hq o ho
          refine ⟨hsrc, hown.request fun hasked => ?_⟩
          -- another call for the object has its answer in the socket
          have hsame : o.obj.dst = dst ∧ o.obj.objid = objid :=
            ⟨hasked.1.symm.trans hmdst, hasked.2.symm.trans hmobj⟩
          unfold Canobj.Asked Canobj.Told
          rw [hsame.1, hsame.2]
          exact ⟨hfw, hpr⟩
        · obtain rfl := Option.some.inj ho
          refine ⟨rfl, .coming (hrx ⟨rxq, none⟩ hp) (fun e he hasked => ?_) (fun e he htold => ?_) (.inl ?_)⟩
          · rcases List.mem_append.mp he with he | he
            · exact absurd hasked (hfw e he)
            · rw [List.mem_singleton.mp he]
          · exact absurd htold (hpr e he)
          · exact ⟨_, List.mem_append_right _ (List.mem_singleton_self _), hmdst, hmobj⟩
      · rcases List.mem_or_eq_of_mem_set hq with hq | rfl
        · exact h.sockets q hq e he
        · exact h.sockets _ (List.mem_of_getElem? hp) e he
    · cases hs
      exact h
  · cases hs

theorem Honest.receive (h : Honest s) {i : Nat} (hs : s.receive i = some t) : Honest t := by
  obtain ⟨e, hi, rfl⟩ := Option.map_eq_some_iff.mp hs
  obtain ⟨hsrc, htype⟩ := h.requests e (List.mem_of_getElem? hi)
  -- the services answer once
  obtain ⟨r, hr⟩ := List.length_eq_one_iff.mp (rx_answered (s.fws e.2.dst) e.2 htype)
  obtain ⟨_, hrdst, hrsrc, hrobj⟩ := rx_form (s.fws e.2.dst) e.2 (hr ▸ List.mem_singleton_self r)
  rw [h.fws] at hrsrc
  simp only [hr, List.map_singleton]
  refine ⟨fun a => ?_, fun e' he' => h.requests e' (List.mem_of_mem_eraseIdx he'), fun q hq o ho => ?_,
    fun e' he' => ?_, fun e' he' => ?_, fun q hq e' he' => ?_, fun o ho => ?_⟩
  · show (Function.update s.fws e.2.dst _ a).srcaddr = a
    by_cases ha : a = e.2.dst
    · subst ha
      rw [Function.update_self, (canservicesRxTask_step (s.fws e.2.dst) e.2).pc.2.2]
      exact h.fws _
    · rw [Function.update_of_ne ha]
      exact h.fws a
  · obtain ⟨hosrc, hown⟩ := h.own q hq o ho
    refine ⟨hosrc, hown.answer hi ?_⟩
    unfold Canobj.Told Canobj.Asked
    rw [hrsrc, hrobj]
  · rcases List.mem_append.mp he' with he' | he'
    · exact h.answers e' he'
    · rw [List.mem_singleton.mp he']
      exact hrdst.trans hsrc
  · rcases List.mem_append.mp he' with he' | he'
    · exact List.mem_append_left _ (h.flight e' he')
    · exact List.mem_append_right _ he'
  · exact List.mem_append_left _ (h.sockets q hq e' he')
  · exact CanNet.Agrees.mono (h.done o ho) fun e' he' => List.mem_append_left _ he'

theorem Honest.deliver (h : Honest s) {i : Nat} (hs : s.deliver i = some t) : Honest t := by
  obtain ⟨e, hi, rfl⟩ := Option.map_eq_some_iff.mp hs
  have he := h.flight e (List.mem_of_getElem? hi)
  have hdst := h.answers e he
  -- every socket takes an answer to the node
  have hpasses : passes s.me e.2 = true := by
    unfold passes
    rw [hdst, beq_self_eq_true, Bool.true_or]
  simp only [if_pos hpasses]
  refine ⟨h.fws, h.requests, fun q' hq' o ho => ?_, h.answers,
    fun e' he' => h.flight e' (List.mem_of_mem_eraseIdx he'), fun q' hq' e' he' => ?_, h.done⟩
  · obtain ⟨q, hq, rfl⟩ := List.mem_map.mp hq'
    obtain ⟨hosrc, hown⟩ := h.own q hq o ho
    exact ⟨hosrc, hown.arrive hi fun htold => Canobj.matched_iff.mpr ⟨hdst.trans hosrc.symm, htold⟩⟩
  · obtain ⟨q, hq, rfl⟩ := List.mem_map.mp hq'
    rcases List.mem_append.mp he' with he' | he'
    · exact h.sockets q hq e' he'
    · rw [List.mem_singleton.mp he']
      exact he

/-- a process whose socket holds a part of what it held, in the same call or in none -/
theorem Honest.set (h : Honest s) {p : Nat} {q : Proc} {rxq : List (Nat × CanMsg)}
    {op : Option Pending} (hp : s.procs[p]? = some q) (hsub : ∀ e ∈ rxq, e ∈ q.rxq)
    (hop : ∀ o, op = some o → o.obj.src = s.me ∧ Own s.toFw s.toProcs rxq o) :
    Honest { s with procs := s.procs.set p ⟨rxq, op⟩ } := by
  refine ⟨h.fws, h.requests, ?_, h.answers, h.flight, ?_, h.done⟩
  · intro q' hq' o ho
    rcases List.mem_or_eq_of_mem_set hq' with hq' | rfl
    · exact h.own q' hq' o ho
    · exact hop o ho
  · intro q' hq' e he
    rcases List.mem_or_eq_of_mem_set hq' with hq' | rfl
    · exact h.sockets q' hq' e he
    · exact h.sockets q (List.mem_of_getElem? hp) e (hsub e he)

theorem Honest.recv (h : Honest s) {p : Nat} (hs : s.recv p = some t) : Honest t := by
  unfold CanNet.recv at hs
  split at hs
  · rename_i l m rxq o hp
    have hq := List.mem_of_getElem? hp
    obtain ⟨hsrc, hown⟩ := h.own _ hq o rfl
    have hsub : ∀ e ∈ rxq, e ∈ (l, m) :: rxq := fun e he => List.mem_cons_of_mem _ he
    split at hs
    · rename_i hmatch
      cases hs
      have hl : l = o.id := hown.take hmatch
      have hset := @Honest.set s h p _ rxq none hp hsub (fun o ho => by cases ho)
      refine ⟨hset.fws, hset.requests, hset.own, hset.answers, hset.flight, hset.sockets, ?_⟩
      intro o' ho'
      rcases List.mem_append.mp ho' with ho' | ho'
      · exact h.done o' ho'
      · rw [List.mem_singleton.mp ho']
        intro bs hbs
        obtain ⟨hack, hread⟩ := finish_ok hbs
        refine ⟨hl, ?_, hack, hread⟩
        rw [← hl]
        exact h.sockets _ hq (l, m) List.mem_cons_self
    · rename_i hmatch
      cases hs
      refine h.set hp hsub fun o' ho' => ?_
      obtain rfl := Option.some.inj ho'
      exact ⟨hsrc, hown.skip hmatch⟩
  · cases hs

theorem Honest.giveUp (h : Honest s) {p : Nat} (hs : s.giveUp p = some t) : Honest t := by
  unfold CanNet.giveUp at hs
  split at hs
  · rename_i rxq o hp
    cases hs
    exact h.set hp (fun e he => he) fun o ho => by cases ho
  · cases hs

theorem honest_step {a : CanAct} (h : Honest s) (hg : Alone s a) (hs : s.step a = some t) :
    Honest t := by
  cases a with
  | spawn =>
    cases hs
    refine ⟨h.fws, h.requests, ?_, h.answers, h.flight, ?_, h.done⟩
    · intro q hq o ho
      rcases List.mem_append.mp hq with hq | hq
      · exact h.own q hq o ho
      · rw [List.mem_singleton.mp hq] at ho
        cases ho
    · intro q hq e he
      rcases List.mem_append.mp hq with hq | hq
      · exact h.sockets q hq e he
      · rw [List.mem_singleton.mp hq] at he
        cases he
  | call p dst objid c => exact h.call hg hs
  | toFw i => exact h.receive hs
  | toProcs i => exact h.deliver hs
  | recv p => exact h.recv hs
  | giveUp p => exact h.giveUp hs

theorem CanNet.Start.honest (h : s.Start) : Honest s := by
  obtain ⟨hfws, hprocs, hrequests, hflight, hanswers, hdone⟩ := h
  refine ⟨hfws, ?_, ?_, ?_, ?_, ?_, ?_⟩
  · rw [hrequests]
    exact fun e he => absurd he List.not_mem_nil
  · rw [hprocs]
    exact fun q hq => absurd hq List.not_mem_nil
  · rw [hanswers]
    exact fun e he => absurd he List.not_mem_nil
  · rw [hflight]
    exact fun e he => absurd he List.not_mem_nil
  · rw [hprocs]
    exact fun q hq => absurd hq List.not_mem_nil
  · rw [hdone]
    exact fun o ho => absurd ho List.not_mem_nil

end

/-- **Every call that succeeds took the answer to its own request**, if the calls for one object are
alone. -/
theorem replies_agree {s t : CanNet} (h0 : s.Start) (h : canNet.Reach Alone s t) :
    ∀ o ∈ t.done, t.Agrees o := by
  have hinv : Honest t := h.inv h0.honest fun _ _ _ hi hg hs => honest_step hi hg hs
  exact hinv.done

/-- the node `me` before any call, all services just started -/
def CanNet.idle (me : Addr) : CanNet := ⟨me, [], [], [], Fw.init, 0, [], []⟩

/-- One process turns the power of the board 16 on; before it takes the answer from its socket, a new one
reads the power. -/
def onThenStatus : List CanAct :=
  [.spawn, .spawn, .call 0 16 objPower (.write [1]), .toFw 0, .toProcs 0, .spawn,
    .call 2 16 objPower (.read 8), .recv 0, .toFw 0, .toProcs 0, .recv 2]

/-- a write times out, its answer arrives during the read that follows -/
def lateAnswer : List CanAct :=
  [.spawn, .call 0 16 objPower (.write [1]), .giveUp 0, .call 0 16 objPower (.read 8), .toFw 0,
    .toProcs 0, .recv 0]

def CanNet.results (s : CanNet) : List (Option (List UInt8)) :=
  s.done.map fun o => o.result.toOption

theorem replies_agree_power : ∃ t, canNet.run (CanNet.idle 2) onThenStatus = some t ∧
    t.results = [some [], some [1]] ∧ ∀ o ∈ t.done, t.Agrees o := by
  have hrun : (canNet.run (CanNet.idle 2) onThenStatus).map CanNet.results
      = some [some [], some [1]] := by decide
  obtain ⟨t, ht, hres⟩ := Option.map_eq_some_iff.mp hrun
  have hguard : canNet.Along Alone (CanNet.idle 2) onThenStatus := by decide
  have h0 : (CanNet.idle 2).Start := ⟨fun _ => rfl, rfl, rfl, rfl, rfl, rfl⟩
  exact ⟨t, ht, hres, replies_agree h0 (Machine.run_reach hguard ht)⟩

theorem replies_agree_fails : ¬ ∀ s t : CanNet, s.Start → canNet.Reach Machine.Free s t →
    ∀ o ∈ t.done, t.Agrees o := by
  intro hall
  have hrun : (canNet.run (CanNet.idle 2) lateAnswer).map (fun t =>
      t.done.any fun o => o.result.toOption == some [] && o.label != o.pending.id)
      = some true := by decide
  obtain ⟨t, ht, hbad⟩ := Option.map_eq_some_iff.mp hrun
  have h0 : (CanNet.idle 2).Start := ⟨fun _ => rfl, rfl, rfl, rfl, rfl, rfl⟩
  obtain ⟨o, ho, hbad⟩ := List.any_eq_true.mp hbad
  rw [Bool.and_eq_true, beq_iff_eq, bne_iff_ne] at hbad
  obtain ⟨bs, hbs⟩ : ∃ bs, o.result = .ok bs := by
    cases hr : o.result with
    | ok bs => exact ⟨bs, rfl⟩
    | error e =>
      rw [hr] at hbad
      cases hbad.1
  exact hbad.2 (hall _ t h0 (Machine.run_free ht) o ho bs hbs).1

end Bramble
