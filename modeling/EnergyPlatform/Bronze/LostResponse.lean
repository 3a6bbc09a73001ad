import EnergyPlatform.Bronze.CaptureRaces
import EnergyPlatform.Bronze.S3

/-!
# Bronze.LostResponse

One capture over a bucket whose requests fail, are answered late or not at all.

`Reads` is the rule for the requests that change nothing: a program of `n` of them returns when all
are answered and raises otherwise. `captureLoop_cases` is one round of the capture: it stops without
a new entry, creates its entry and stops, or creates it, takes it for another writer's and goes on.
-/

namespace EnergyPlatform

open Lib (Dict Prog)
open ObjectStore (Answered Acted Doubtful)

/-! ## The bucket -/

namespace Bucket

variable {b : Bucket} {targetId : String} {stamp : Int}

theorem mem_ofStamp {e : CaptureEntry} : e ∈ b.ofStamp targetId stamp ↔
    b.entries.get? e.key = some e ∧ e.key.target = targetId ∧ e.key.stamp = stamp := by
  simp only [ofStamp, List.mem_filter, Dict.mem_values, decide_eq_true_eq]
  constructor
  · rintro ⟨⟨k, hk⟩, h⟩
    exact ⟨by rw [b.filed hk]; exact hk, h⟩
  · exact fun ⟨hk, h⟩ => ⟨⟨_, hk⟩, h⟩

/-- Under one key there is one entry. -/
theorem ofStamp_unique {e e' : CaptureEntry} (he : e ∈ b.ofStamp targetId stamp)
    (he' : e' ∈ b.ofStamp targetId stamp) (hk : e.key = e'.key) : e = e' := by
  have h := (mem_ofStamp.mp he).1
  rw [hk, (mem_ofStamp.mp he').1] at h
  exact (Option.some.inj h).symm

theorem get?_none_of_fresh {e : CaptureEntry} (ht : e.key.target = targetId)
    (hs : e.key.stamp = stamp) (hfree : ∀ x ∈ b.ofStamp targetId stamp, x.key ≠ e.key) :
    b.entries.get? e.key = none := by
  cases hg : b.entries.get? e.key with
  | none => rfl
  | some x =>
    have hx := b.filed hg
    exact absurd hx (hfree x (mem_ofStamp.mpr ⟨hx ▸ hg, hx ▸ ht, hx ▸ hs⟩))

theorem ofStamp_add {e : CaptureEntry} (h : b.entries.get? e.key = none) :
    (b.add e).ofStamp targetId stamp =
      b.ofStamp targetId stamp ++
        [e].filter fun e => e.key.target = targetId ∧ e.key.stamp = stamp := by
  simp only [ofStamp, add, Dict.values_set_of_none e h, List.filter_append]

theorem ofStamp_add_own {e : CaptureEntry} (h : b.entries.get? e.key = none)
    (ht : e.key.target = targetId) (hs : e.key.stamp = stamp) :
    (b.add e).ofStamp targetId stamp = b.ofStamp targetId stamp ++ [e] := by
  rw [ofStamp_add h]
  simp [ht, hs]

/-- No request takes an entry away. -/
theorem serve_grows (b : Bucket) (rq : Request) :
    b.ofStamp targetId stamp <+: (b.serve rq).2.ofStamp targetId stamp := by
  cases rq with
  | head sha => exact List.prefix_rfl
  | put sha data => exact List.prefix_rfl
  | putNew e =>
    simp only [serve]
    split
    · exact List.prefix_rfl
    · rename_i hc
      have hnone : b.entries.get? e.key = none := by
        simpa [Dict.contains] using hc
      rw [ofStamp_add hnone]
      exact List.prefix_append _ _
  | get key =>
    simp only [serve]
    split <;> exact List.prefix_rfl
  | list t s token => exact List.prefix_rfl

end Bucket

/-! ## Requests that change nothing -/

namespace Network

variable (net : Network) (targetId : String) (stamp : Int)

/-- Other writers leave the instant alone. -/
def Elsewhere : Prop :=
  ∀ i b, (net.others i b).ofStamp targetId stamp = b.ofStamp targetId stamp

/-- The wire after `n` requests that changed nothing. -/
def idle : Nat → Wire → Wire
  | 0, w => w
  | n + 1, w => idle n ⟨net.others w.sent w.bucket, w.sent + 1⟩

variable {net targetId stamp}

theorem idle_sent (n : Nat) : ∀ w, (net.idle n w).sent = w.sent + n := by
  induction n with
  | zero => exact fun _ => rfl
  | succ n ih =>
    intro w
    rw [idle, ih]
    exact Nat.add_right_comm w.sent 1 n

theorem idle_ofStamp (hoth : net.Elsewhere targetId stamp) (n : Nat) : ∀ w,
    (net.idle n w).bucket.ofStamp targetId stamp = w.bucket.ofStamp targetId stamp := by
  induction n with
  | zero => exact fun _ => rfl
  | succ n ih =>
    intro w
    rw [idle, ih, hoth]

theorem idle_add (m n : Nat) : ∀ w, net.idle (m + n) w = net.idle n (net.idle m w) := by
  induction m with
  | zero => intro w; rw [Nat.zero_add]; rfl
  | succ m ih =>
    intro w
    rw [Nat.succ_add, idle, ih]
    rfl

/-- All of the next `n` requests are answered. -/
def Through (net : Network) (first n : Nat) : Prop := ∀ i, i < n → Answered (net.tries (first + i))

theorem through_zero (first : Nat) : net.Through first 0 := fun _ h => absurd h (Nat.not_lt_zero _)

theorem through_add {first m n : Nat} :
    net.Through first (m + n) ↔ net.Through first m ∧ net.Through (first + m) n := by
  constructor
  · intro h
    refine ⟨fun i hi => h i (by omega), fun i hi => ?_⟩
    have := h (m + i) (by omega)
    rwa [← Nat.add_assoc] at this
  · rintro ⟨hm, hn⟩ i hi
    by_cases him : i < m
    · exact hm i him
    · have := hn (i - m) (by omega)
      rwa [show first + m + (i - m) = first + i by omega] at this

theorem through_one {first : Nat} : net.Through first 1 ↔ Answered (net.tries first) := by
  constructor
  · exact fun h => h 0 Nat.one_pos
  · intro h i hi
    obtain rfl : i = 0 := by omega
    exact h

end Network

namespace S3

section Reads

variable (net : Network) (targetId : String) (stamp : Int) (S : List CaptureEntry)

/-- Started where the instant holds `S`, the program makes `n` requests that change nothing and
returns `a`; if one of them is not answered, it raises. -/
def Reads {α : Type} (p : Client α) (n : Nat) (a : α) : Prop :=
  ∀ w : Wire, w.bucket.ofStamp targetId stamp = S →
    (net.Through w.sent n ∧ p.run net.send w = (.ok a, net.idle n w)) ∨
    (¬ net.Through w.sent n ∧ ∃ e w', p.run net.send w = (.error e, w') ∧
      w'.bucket.ofStamp targetId stamp = S)

variable {net targetId stamp S} {α β : Type}

theorem Reads.ret (a : α) : Reads net targetId stamp S (.ret a) 0 a :=
  fun w _ => .inl ⟨Network.through_zero w.sent, rfl⟩

theorem Reads.bind (hoth : net.Elsewhere targetId stamp) {p : Client α} {f : α → Client β}
    {m n : Nat} {a : α} {c : β} (hp : Reads net targetId stamp S p m a)
    (hf : Reads net targetId stamp S (f a) n c) :
    Reads net targetId stamp S (p.bind f) (m + n) c := by
  intro w hw
  rcases hp w hw with ⟨hm, hrun⟩ | ⟨hm, e, w', hrun, hw'⟩
  · have hw₁ : (net.idle m w).bucket.ofStamp targetId stamp = S := by
      rw [Network.idle_ofStamp hoth, hw]
    have hbind := Prog.run_bind_ok net.send (f := f) hrun
    rcases hf _ hw₁ with ⟨hn, hrun'⟩ | ⟨hn, e, w', hrun', hw'⟩
    · rw [Network.idle_sent] at hn
      refine .inl ⟨Network.through_add.mpr ⟨hm, hn⟩, ?_⟩
      rw [hbind, hrun', Network.idle_add]
    · rw [Network.idle_sent] at hn
      exact .inr ⟨fun h => hn (Network.through_add.mp h).2, e, w', hbind.trans hrun', hw'⟩
  · exact .inr ⟨fun h => hm (Network.through_add.mp h).1, e, w',
      Prog.run_bind_error net.send hrun, hw'⟩

/-- A request whose answer `S` determines. -/
theorem reads_send (hoth : net.Elsewhere targetId stamp) (rq : Request) {r : rq.Ans}
    (hrq : ∀ b : Bucket, b.ofStamp targetId stamp = S → b.serve rq = (r, b)) :
    Reads net targetId stamp S (send rq) 1 r := by
  intro w hw
  have hb : (net.others w.sent w.bucket).ofStamp targetId stamp = S := by rw [hoth, hw]
  have hserve := hrq _ hb
  have hrun : (send rq).run net.send w = net.send w rq := Prog.run_perform net.send rq w
  rw [hrun, Network.through_one]
  simp only [Network.send]
  rcases ObjectStore.request_still Bucket.serve rq (s := net.others w.sent w.bucket)
      (by rw [hserve]) (net.tries w.sent) with ⟨ha, hreq⟩ | ⟨ha, e, hreq⟩
  · exact .inl ⟨ha, by rw [hreq, hserve]; rfl⟩
  · exact .inr ⟨ha, e, _, by rw [hreq], hb⟩

theorem reads_get (hoth : net.Elsewhere targetId stamp) {e : CaptureEntry}
    (he : ∀ b : Bucket, b.ofStamp targetId stamp = S → b.entries.get? e.key = some e) :
    Reads net targetId stamp S (get e.key) 1 (some e) := by
  have hserve : ∀ b : Bucket, b.ofStamp targetId stamp = S → b.serve (.get e.key) = (.ok e, b) := by
    intro b hb
    simp only [Bucket.serve, he b hb]
  refine Reads.bind hoth (m := 1) (n := 0) (reads_send hoth _ hserve) ?_
  exact Reads.ret (some e)

theorem get?_of_mem {e : CaptureEntry} (he : e ∈ S) (b : Bucket)
    (hb : b.ofStamp targetId stamp = S) : b.entries.get? e.key = some e :=
  (Bucket.mem_ofStamp.mp (hb ▸ he)).1

theorem reads_readAll (hoth : net.Elsewhere targetId stamp) (l : List CaptureEntry)
    (hl : ∀ e ∈ l, e ∈ S) :
    Reads net targetId stamp S (readAll (l.map (·.key))) l.length l := by
  induction l with
  | nil => exact Reads.ret []
  | cons e rest ih =>
    have hget := reads_get hoth (get?_of_mem (hl e List.mem_cons_self))
    have hrest := ih fun x hx => hl x (List.mem_cons_of_mem e hx)
    have hcount : (e :: rest).length = 1 + (rest.length + 0) := by
      rw [List.length_cons, Nat.add_comm]
      rfl
    rw [hcount]
    refine Reads.bind hoth hget (Reads.bind hoth hrest ?_)
    exact Reads.ret _

/-- Pages of a listing of `k` keys. -/
def pagesOf (k : Nat) : Nat := (k - 1) / Bucket.pageSize + 1

/-- Requests of a listing of `k` entries: its pages, and each entry. -/
def listing (k : Nat) : Nat := pagesOf k + k

theorem reads_readPages (hoth : net.Elsewhere targetId stamp) (pages : Nat) : ∀ token,
    S.length - token < pages →
    Reads net targetId stamp S (readPages targetId stamp pages token) (listing (S.length - token))
      (S.drop token) := by
  induction pages with
  | zero => exact fun _ h => absurd h (Nat.not_lt_zero _)
  | succ pages ih =>
    intro token hlen
    have hlist := reads_send (S := S) hoth (.list targetId stamp token)
      (r := .ok (Bucket.page (S.map (·.key)) token)) fun b hb => by rw [Bucket.serve, hb]
    have hkeys : ((S.map (·.key)).drop token).take Bucket.pageSize =
        ((S.drop token).take Bucket.pageSize).map (·.key) := by
      rw [List.map_take, List.map_drop]
    have hall := reads_readAll hoth ((S.drop token).take Bucket.pageSize)
      fun e he => List.mem_of_mem_drop (List.mem_of_mem_take he)
    rw [← hkeys] at hall
    by_cases hmore : token + Bucket.pageSize < S.length
    · have hnext := ih (token + Bucket.pageSize) (by unfold Bucket.pageSize at *; omega)
      have hcount : listing (S.length - token) = 1 + (((S.drop token).take Bucket.pageSize).length +
          (listing (S.length - (token + Bucket.pageSize)) + 0)) := by
        simp only [listing, pagesOf, List.length_take, List.length_drop]
        unfold Bucket.pageSize at *
        omega
      have hlater : Reads net targetId stamp S (.ret ((S.drop token).take Bucket.pageSize ++
          S.drop (token + Bucket.pageSize))) 0 (S.drop token) := by
        rw [← List.drop_drop, List.take_append_drop]
        exact Reads.ret _
      rw [hcount]
      refine Reads.bind hoth hlist ?_
      show Reads net targetId stamp S
        ((readAll (((S.map (·.key)).drop token).take Bucket.pageSize)).bind _) _ _
      refine Reads.bind hoth hall ?_
      simp only [List.length_map, if_pos hmore]
      exact Reads.bind hoth hnext hlater
    · have hcount : listing (S.length - token) =
          1 + (((S.drop token).take Bucket.pageSize).length + 0) := by
        simp only [listing, pagesOf, List.length_take, List.length_drop]
        unfold Bucket.pageSize at *
        omega
      have hlast : (S.drop token).take Bucket.pageSize = S.drop token := by
        refine List.take_of_length_le ?_
        rw [List.length_drop]
        omega
      rw [hcount]
      refine Reads.bind hoth hlist ?_
      show Reads net targetId stamp S
        ((readAll (((S.map (·.key)).drop token).take Bucket.pageSize)).bind _) _ _
      refine Reads.bind hoth hall ?_
      simp only [List.length_map, if_neg hmore, hlast]
      exact Reads.ret _

theorem reads_entriesFor {at_ : Instant} (hoth : net.Elsewhere targetId (at_ / second))
    {pages : Nat} (hpages : S.length < pages) :
    Reads net targetId (at_ / second) S (entriesFor pages targetId at_) (listing S.length)
      (CaptureLog.ordered S) := by
  have hread := reads_readPages hoth (S := S) pages 0 (by omega)
  rw [Nat.sub_zero, List.drop_zero] at hread
  exact Reads.bind hoth (n := 0) hread (Reads.ret _)

end Reads

/-! ## Requests that write -/

section Writes

variable {net : Network} {targetId : String} {stamp : Int} {S : List CaptureEntry}

theorem run_send (net : Network) (rq : Request) (w : Wire) : ∀ r b',
    ObjectStore.request Bucket.serve (net.tries w.sent) rq (net.others w.sent w.bucket) = (r, b') →
      (send rq).run net.send w = (r, ⟨b', w.sent + 1⟩) := by
  intro r b' h
  have hrun : (send rq).run net.send w = net.send w rq := Prog.run_perform net.send rq w
  rw [hrun, Network.send, h]

/-- The conditional `PUT` of an entry whose key is free. -/
theorem putNew_cases (hoth : net.Elsewhere targetId stamp) {e : CaptureEntry}
    (ht : e.key.target = targetId) (hs : e.key.stamp = stamp) (hfree : ∀ x ∈ S, x.key ≠ e.key)
    {w : Wire} (hw : w.bucket.ofStamp targetId stamp = S) :
    (¬ Acted (net.tries w.sent) ∧ ∃ err w', (putNew e).run net.send w = (.error err, w') ∧
      w'.bucket.ofStamp targetId stamp = S) ∨
    ∃ w', w'.bucket.ofStamp targetId stamp = S ++ [e] ∧ w'.sent = w.sent + 1 ∧
      ((Acted (net.tries w.sent) ∧ ¬ Doubtful (net.tries w.sent) ∧
        ((∃ err, (putNew e).run net.send w = (.error err, w')) ∨
          (putNew e).run net.send w = (.ok true, w'))) ∨
      (Doubtful (net.tries w.sent) ∧ (putNew e).run net.send w = (.ok false, w'))) := by
  have hb : (net.others w.sent w.bucket).ofStamp targetId stamp = S := by rw [hoth, hw]
  have hsend := run_send net (.putNew e) w
  generalize net.others w.sent w.bucket = b at hb hsend
  have hnone : b.entries.get? e.key = none := Bucket.get?_none_of_fresh ht hs (hb ▸ hfree)
  have hadd : (b.add e).ofStamp targetId stamp = S ++ [e] := by
    rw [Bucket.ofStamp_add_own hnone ht hs, hb]
  have hfirst : b.serve (.putNew e) = (.ok (), b.add e) := by
    simp [Bucket.serve, Dict.contains, hnone]
  have hagain : (b.add e).serve (.putNew e) = (.preconditionFailed, b.add e) := by
    simp [Bucket.serve, Dict.contains, Bucket.add]
  rcases ObjectStore.request_cases Bucket.serve (.putNew e) (s := b)
      (q := b.add e) (by rw [hfirst]) (by rw [hagain]) (net.tries w.sent) with
    ⟨hno, err, h⟩ | ⟨hacted, hans, err, h⟩ | ⟨hans, hsure, h⟩ | ⟨hdoubt, h⟩
  · exact .inl ⟨hno, err, _, Prog.run_bind_error net.send (hsend _ _ h), hb⟩
  · exact .inr ⟨_, hadd, rfl, .inl ⟨hacted, fun hd => hans hd.1,
      .inl ⟨err, Prog.run_bind_error net.send (hsend _ _ h)⟩⟩⟩
  · rw [hfirst] at h
    exact .inr ⟨_, hadd, rfl, .inl ⟨⟨_, hans, rfl⟩, hsure,
      .inr (Prog.run_bind_ok net.send (hsend _ _ h))⟩⟩
  · rw [hagain] at h
    exact .inr ⟨_, hadd, rfl, .inr ⟨hdoubt, Prog.run_bind_ok net.send (hsend _ _ h)⟩⟩

/-- The entry is created with its read-back, or the `PUT` that created it goes for another
writer's. -/
theorem putNewEntry_cases (hoth : net.Elsewhere targetId stamp) {e : CaptureEntry}
    (ht : e.key.target = targetId) (hs : e.key.stamp = stamp) (hfree : ∀ x ∈ S, x.key ≠ e.key)
    {w : Wire} (hw : w.bucket.ofStamp targetId stamp = S) :
    (¬ Acted (net.tries w.sent) ∧ ∃ err w', (putNewEntry e).run net.send w = (.error err, w') ∧
      w'.bucket.ofStamp targetId stamp = S) ∨
    ∃ w', w'.bucket.ofStamp targetId stamp = S ++ [e] ∧
      ((Acted (net.tries w.sent) ∧ ¬ Doubtful (net.tries w.sent) ∧
        ((∃ err, (putNewEntry e).run net.send w = (.error err, w')) ∨
          (putNewEntry e).run net.send w = (.ok true, w'))) ∨
      (Doubtful (net.tries w.sent) ∧ (putNewEntry e).run net.send w = (.ok false, w') ∧
        w'.sent = w.sent + 1)) := by
  rcases putNew_cases hoth ht hs hfree hw with
    ⟨hno, err, w', h, hw'⟩ | ⟨w', hw', hsent, ⟨hacted, hsure, ⟨err, h⟩ | h⟩ | ⟨hdoubt, h⟩⟩
  · exact .inl ⟨hno, err, w', Prog.run_bind_error net.send h, hw'⟩
  · exact .inr ⟨w', hw', .inl ⟨hacted, hsure, .inl ⟨err, Prog.run_bind_error net.send h⟩⟩⟩
  · have hread := reads_get hoth (S := S ++ [e])
      (get?_of_mem (List.mem_append_right S (List.mem_singleton_self e)))
    have hbind := Prog.run_bind_ok net.send h (f := fun created => if created then
      (get e.key).bind fun stored => .ret (stored.any fun s => s.captureId = e.captureId ∧
        s.payloadSha256 = e.payloadSha256 ∧ s.fetchedAt = e.fetchedAt) else .ret false)
    rcases hread w' hw' with ⟨-, hrun⟩ | ⟨-, err, w'', hrun, hw''⟩
    · refine .inr ⟨net.idle 1 w', ?_, .inl ⟨hacted, hsure, .inr ?_⟩⟩
      · rw [Network.idle_ofStamp hoth, hw']
      · refine hbind.trans ?_
        rw [if_pos rfl, Prog.run_bind_ok net.send hrun]
        simp
    · exact .inr ⟨w'', hw'', .inl ⟨hacted, hsure, .inl ⟨err, hbind.trans
        (Prog.run_bind_error net.send hrun)⟩⟩⟩
  · exact .inr ⟨w', hw', .inr ⟨hdoubt, Prog.run_bind_ok net.send h, hsent⟩⟩

/-- Requests of storing a blob: none that is there is written again. -/
def blobRequests (net : Network) (sha : Sha256) (w : Wire) : Nat :=
  if (net.others w.sent w.bucket).blobs.contains sha then 1 else 2

/-- The `PUT` of a blob; done twice, it is done once. -/
theorem putBlob_put (hoth : net.Elsewhere targetId stamp) (sha : Sha256) (data : Bytes) {w : Wire}
    (hw : w.bucket.ofStamp targetId stamp = S) :
    (Answered (net.tries w.sent) ∧ ∃ b', (send (.put sha data)).run net.send w =
        (.ok (.ok ()), ⟨b', w.sent + 1⟩) ∧ b'.ofStamp targetId stamp = S) ∨
    (¬ Answered (net.tries w.sent) ∧ ∃ err w', (send (.put sha data)).run net.send w =
        (.error err, w') ∧ w'.bucket.ofStamp targetId stamp = S) := by
  have hb : (net.others w.sent w.bucket).ofStamp targetId stamp = S := by rw [hoth, hw]
  have hsend := run_send net (.put sha data) w
  generalize net.others w.sent w.bucket = b at hb hsend
  have hagain : (b.blobs.set sha data).set sha data = b.blobs.set sha data :=
    Dict.set_get? (Dict.get?_set_self ..)
  rcases ObjectStore.request_cases Bucket.serve (.put sha data) (s := b)
      (q := { b with blobs := b.blobs.set sha data }) rfl (by rw [Bucket.serve, hagain])
      (net.tries w.sent) with
    ⟨hno, err, h⟩ | ⟨hacted, hans, err, h⟩ | ⟨hans, hsure, h⟩ | ⟨hdoubt, h⟩
  · exact .inr ⟨fun hans => hno ⟨_, hans, rfl⟩, err, _, hsend _ _ h, hb⟩
  · exact .inr ⟨hans, err, _, hsend _ _ h, hb⟩
  · exact .inl ⟨hans, _, hsend _ _ h, hb⟩
  · exact .inl ⟨hdoubt.1, _, hsend _ _ h, hb⟩

theorem putBlob_cases (hoth : net.Elsewhere targetId stamp) (sha256 : Bytes → Sha256) (data : Bytes)
    {w : Wire} (hw : w.bucket.ofStamp targetId stamp = S) :
    (net.Through w.sent (blobRequests net (sha256 data) w) ∧ ∃ w',
      (putBlob sha256 data).run net.send w = (.ok (sha256 data), w') ∧
      w'.sent = w.sent + blobRequests net (sha256 data) w ∧
      w'.bucket.ofStamp targetId stamp = S) ∨
    (¬ net.Through w.sent (blobRequests net (sha256 data) w) ∧ ∃ err w',
      (putBlob sha256 data).run net.send w = (.error err, w') ∧
      w'.bucket.ofStamp targetId stamp = S) := by
  have hb : (net.others w.sent w.bucket).ofStamp targetId stamp = S := by rw [hoth, hw]
  have hsend := run_send net (.head (sha256 data)) w
  rw [blobRequests]
  generalize net.others w.sent w.bucket = b at hb hsend
  rcases ObjectStore.request_still Bucket.serve (.head (sha256 data)) (s := b) rfl
    (net.tries w.sent) with ⟨hans, h⟩ | ⟨hans, err, h⟩
  · have hhead : (head (sha256 data)).run net.send w =
        (.ok (b.blobs.contains (sha256 data)), ⟨b, w.sent + 1⟩) := by
      refine (Prog.run_bind_ok net.send (hsend _ _ h)).trans ?_
      cases hc : b.blobs.contains (sha256 data) <;> simp [Bucket.serve, hc, orRaise]
    cases hc : b.blobs.contains (sha256 data) with
    | true =>
      rw [hc] at hhead
      exact .inl ⟨Network.through_one.mpr hans, _, Prog.run_bind_ok net.send hhead, rfl, hb⟩
    | false =>
      rw [hc] at hhead
      have hput := putBlob_put hoth (sha256 data) data (w := ⟨b, w.sent + 1⟩) hb
      have hbind := Prog.run_bind_ok net.send hhead (f := fun there => if there = true then
        .ret (sha256 data) else (send (.put (sha256 data) data)).bind fun reply =>
          (orRaise (BlobRef.text ⟨sha256 data⟩) reply).bind fun _ => .ret (sha256 data))
      rw [if_neg Bool.false_ne_true, show (2 : Nat) = 1 + 1 from rfl, Network.through_add,
        Network.through_one, Network.through_one]
      rw [if_neg Bool.false_ne_true] at hbind
      rcases hput with ⟨hans', b', hrun, hb'⟩ | ⟨hans', err, w', hrun, hw'⟩
      · exact .inl ⟨⟨hans, hans'⟩, _, hbind.trans (Prog.run_bind_ok net.send hrun), rfl, hb'⟩
      · exact .inr ⟨fun h => hans' h.2, err, w',
          hbind.trans (Prog.run_bind_error net.send hrun), hw'⟩
  · refine .inr ⟨fun hthrough => hans ?_, err, _, Prog.run_bind_error net.send
      (Prog.run_bind_error net.send (hsend _ _ h)), hb⟩
    have := hthrough 0 (by split <;> omega)
    exact this

end Writes

/-! ## One round of a capture -/

section Capture

variable {L : Type} {LRet : L → Type} (sha256 : Bytes → Sha256) (net : Network)
  (a : Bronze.CaptureArgs)

/-- The entries of the instant of the capture. -/
def ofCapture (b : Bucket) : List CaptureEntry := b.ofStamp a.targetId (a.scheduledFor / second)

/-- A 304 without a capture of the same resource to point at. -/
def Refused (previous : Option CaptureEntry) : Prop :=
  a.result.notModified = true ∧ ∀ p, previous = some p → p.sourceUrl ≠ a.result.url

/-- Requests of storing the payload: none for a 304 or a payload stored before. -/
def payloadRequests (blob : Option Bronze.StoredBlob) (w : Wire) : Nat :=
  if a.result.notModified = true ∨ blob.isSome = true then 0
  else blobRequests net (sha256 a.result.body) w

variable {sha256 net a} {S : List CaptureEntry}

theorem entriesFor_cases (hoth : net.Elsewhere a.targetId (a.scheduledFor / second)) {w : Wire}
    (hw : ofCapture a w.bucket = S) :
    (net.Through w.sent (listing S.length) ∧
      (EnergyPlatform.entriesFor a.targetId a.scheduledFor : Verb LRet _).run
        (answer sha256 net) w = (.ok (CaptureLog.ordered S), net.idle (listing S.length) w)) ∨
    (¬ net.Through w.sent (listing S.length) ∧ ∃ err w',
      (EnergyPlatform.entriesFor a.targetId a.scheduledFor : Verb LRet _).run
        (answer sha256 net) w = (.error err, w') ∧ ofCapture a w'.bucket = S) := by
  have hrun : (EnergyPlatform.entriesFor a.targetId a.scheduledFor : Verb LRet _).run
      (answer sha256 net) w =
        answer sha256 net w (.bronze (.entriesFor a.targetId a.scheduledFor)) :=
    Prog.run_perform _ _ _
  have hlen : S.length < w.bucket.entries.values.length + 1 := by
    rw [← hw]
    exact Nat.lt_succ_of_le (List.length_filter_le _ _)
  rcases reads_entriesFor hoth hlen w hw with ⟨ht, h⟩ | ⟨ht, e, w', h, hw'⟩
  · exact .inl ⟨ht, hrun.trans (congrArg raised h)⟩
  · exact .inr ⟨ht, _, w', hrun.trans (congrArg raised h), hw'⟩

theorem storePayload_cases (hoth : net.Elsewhere a.targetId (a.scheduledFor / second))
    (previous : Option CaptureEntry) (blob : Option Bronze.StoredBlob) {w : Wire}
    (hw : ofCapture a w.bucket = S) :
    (¬ Refused a previous ∧ net.Through w.sent (payloadRequests sha256 net a blob w) ∧
      ∃ stored blob' w', (Bronze.storePayload a previous blob : Verb LRet _).run
          (answer sha256 net) w = (.ok (stored, blob'), w') ∧
        w'.sent = w.sent + payloadRequests sha256 net a blob w ∧ ofCapture a w'.bucket = S ∧
        (a.result.notModified = true ∨ blob'.isSome = true)) ∨
    ((Refused a previous ∨ ¬ net.Through w.sent (payloadRequests sha256 net a blob w)) ∧
      ∃ err w', (Bronze.storePayload a previous blob : Verb LRet _).run
          (answer sha256 net) w = (.error err, w') ∧ ofCapture a w'.bucket = S) := by
  unfold Bronze.storePayload payloadRequests
  by_cases hnm : a.result.notModified = true
  · rw [if_pos hnm, if_pos (.inl hnm)]
    cases previous with
    | none => exact .inr ⟨.inl ⟨hnm, fun _ h => by cases h⟩, _, w, rfl, hw⟩
    | some p =>
      by_cases hurl : p.sourceUrl = a.result.url
      · refine .inl ⟨fun h => h.2 p rfl hurl, Network.through_zero _,
          (p.payloadSha256, p.rawRef, p.size), blob, w, ?_, rfl, hw, .inl hnm⟩
        simp only [hurl, ne_eq, not_true_eq_false, if_false]
        rfl
      · simp only [ne_eq, hurl, not_false_eq_true, if_true]
        exact .inr ⟨.inl ⟨hnm, fun q hq => Option.some.inj hq ▸ hurl⟩, _, w, rfl, hw⟩
  · have hok : ¬ Refused a previous := fun h => hnm h.1
    rw [if_neg hnm]
    cases blob with
    | some stored =>
      rw [if_pos (.inr rfl)]
      exact .inl ⟨hok, Network.through_zero _, stored, some stored, w, rfl, rfl, hw, .inr rfl⟩
    | none =>
      rw [if_neg (by simp [hnm])]
      have hrun : (EnergyPlatform.putBlob a.result.body : Verb LRet _).run (answer sha256 net) w =
          answer sha256 net w (.bronze (.putBlob a.result.body)) := Prog.run_perform _ _ _
      rcases putBlob_cases hoth sha256 a.result.body hw with
        ⟨ht, w', h, hsent, hw'⟩ | ⟨ht, err, w', h, hw'⟩
      · exact .inl ⟨hok, ht, _, _, w', Prog.run_bind_ok _ (hrun.trans (congrArg raised h)), hsent,
          hw', .inr rfl⟩
      · exact .inr ⟨.inr ht, _, w', Prog.run_bind_error _ (hrun.trans (congrArg raised h)), hw'⟩

/-- The number after the last is free. -/
theorem nextAttempt_fresh (stored : Bronze.StoredBlob) (previous : Option CaptureEntry) :
    ∀ x ∈ S, x.key ≠
      (Bronze.entryOf a previous (Bronze.nextAttempt (CaptureLog.ordered S)) stored).key := by
  intro x hx hkey
  have hmem : x.attempt ∈ (CaptureLog.ordered S).map CaptureEntry.attempt :=
    List.mem_map_of_mem ((List.mem_insertionSort CaptureLog.before).mpr hx)
  have hle : ∀ (l : List Nat) (m : Nat), m ≤ l.foldl max m ∧ ∀ n ∈ l, n ≤ l.foldl max m := by
    intro l
    induction l with
    | nil => exact fun m => ⟨le_refl m, fun _ h => absurd h List.not_mem_nil⟩
    | cons y rest ih =>
      intro m
      obtain ⟨h1, h2⟩ := ih (max m y)
      refine ⟨(le_max_left m y).trans h1, fun n hn => ?_⟩
      rcases List.mem_cons.mp hn with rfl | hn
      · exact (le_max_right m n).trans h1
      · exact h2 n hn
  have hmax := (hle _ 0).2 _ hmem
  have hattempt : x.attempt = Bronze.nextAttempt (CaptureLog.ordered S) :=
    congrArg CaptureId.attempt hkey
  rw [hattempt, Bronze.nextAttempt] at hmax
  omega

/-- What leads a round to the `PUT` of an entry. -/
structure Reaches (sha256 : Bytes → Sha256) (net : Network) (a : Bronze.CaptureArgs)
    (S : List CaptureEntry) (blob : Option Bronze.StoredBlob) (collided : Bool) (w : Wire) :
    Prop where
  listed : net.Through w.sent (listing S.length)
  goesOn : a.force = true ∨ collided = true ∨ S = []
  accepted : ¬ Refused a (Bronze.previousOf a.baseline (CaptureLog.ordered S))
  stored : net.Through (w.sent + listing S.length)
    (payloadRequests sha256 net a blob (net.idle (listing S.length) w))

/-- The number of the request that creates the entry. -/
def putIndex (sha256 : Bytes → Sha256) (net : Network) (a : Bronze.CaptureArgs)
    (S : List CaptureEntry) (blob : Option Bronze.StoredBlob) (w : Wire) : Nat :=
  w.sent + listing S.length + payloadRequests sha256 net a blob (net.idle (listing S.length) w)

/-- One round of a capture. -/
theorem captureLoop_cases (hoth : net.Elsewhere a.targetId (a.scheduledFor / second)) (n : Nat)
    (blob : Option Bronze.StoredBlob) (collided : Bool) {w : Wire} (hw : ofCapture a w.bucket = S)
    {r : Except Exn Bronze.CaptureOutcome} {w' : Wire}
    (hrun : (Bronze.captureLoop a (n + 1) blob collided : Verb LRet _).run (answer sha256 net) w =
      (r, w')) :
    ((¬ Reaches sha256 net a S blob collided w ∨
        ¬ Acted (net.tries (putIndex sha256 net a S blob w))) ∧
      ofCapture a w'.bucket = S ∧
      ((∃ err, r = .error err) ∨ collided = false ∧ ∃ e, r = .ok ⟨e, false⟩)) ∨
    (Reaches sha256 net a S blob collided w ∧ ∃ e, e.sourceUrl = a.result.url ∧
      ((Acted (net.tries (putIndex sha256 net a S blob w)) ∧
        ¬ Doubtful (net.tries (putIndex sha256 net a S blob w)) ∧
        ofCapture a w'.bucket = S ++ [e] ∧ e ∉ S ∧ ((∃ err, r = .error err) ∨ r = .ok ⟨e, true⟩)) ∨
      (Doubtful (net.tries (putIndex sha256 net a S blob w)) ∧ e ∉ S ∧ ∃ blob' w₁,
        ofCapture a w₁.bucket = S ++ [e] ∧ w₁.sent = putIndex sha256 net a S blob w + 1 ∧
        (a.result.notModified = true ∨ blob'.isSome = true) ∧
        (Bronze.captureLoop a n blob' true : Verb LRet _).run (answer sha256 net) w₁ =
          (r, w')))) := by
  simp only [Bronze.captureLoop, Prog.bind_eq] at hrun
  rcases entriesFor_cases hoth hw with ⟨hlisted, h⟩ | ⟨hlisted, err, w₁, h, hw₁⟩
  swap
  · rw [Prog.run_bind_error _ h] at hrun
    cases hrun
    exact .inl ⟨.inl fun hr => hlisted hr.listed, hw₁, .inl ⟨err, rfl⟩⟩
  rw [Prog.run_bind_ok _ h] at hrun
  have hw₁ : ofCapture a (net.idle (listing S.length) w).bucket = S := by
    rw [ofCapture, Network.idle_ofStamp hoth]
    exact hw
  have hsent₁ : (net.idle (listing S.length) w).sent = w.sent + listing S.length :=
    Network.idle_sent _ w
  by_cases hgo : a.force = true ∨ collided = true ∨ S = []
  swap
  · push Not at hgo
    obtain ⟨hforce, hcol, hne⟩ := hgo
    have hne' : CaptureLog.ordered S ≠ [] := fun h0 => hne (List.perm_nil.mp
      (h0 ▸ (List.perm_insertionSort CaptureLog.before S).symm))
    rw [if_neg (fun h => h.elim hforce hcol), List.getLast?_eq_getLast_of_ne_nil hne'] at hrun
    cases hrun
    exact .inl ⟨.inl fun hr => hr.goesOn.elim hforce fun h => h.elim hcol hne, hw₁,
      .inr ⟨by simpa using hcol, _, rfl⟩⟩
  have hnone : (if a.force = true ∨ collided = true then none
      else (CaptureLog.ordered S).getLast?) = none := by
    by_cases hfc : a.force = true ∨ collided = true
    · rw [if_pos hfc]
    · rw [if_neg hfc]
      obtain rfl : S = [] := hgo.elim (fun h => absurd (.inl h) hfc) fun h =>
        h.elim (fun h => absurd (.inr h) hfc) id
      rfl
  rw [hnone] at hrun
  simp only at hrun
  rcases storePayload_cases hoth (Bronze.previousOf a.baseline (CaptureLog.ordered S)) blob hw₁ with
    ⟨hacc, hthrough, stored, blob', w₂, hstore, hsent₂, hw₂, hblob⟩ | ⟨hno, err, w₂, hstore, hw₂⟩
  swap
  · rw [Prog.run_bind_error _ hstore] at hrun
    cases hrun
    refine .inl ⟨.inl fun hr => ?_, hw₂, .inl ⟨err, rfl⟩⟩
    rcases hno with hno | hno
    · exact hr.accepted hno
    · exact hno (hsent₁ ▸ hr.stored)
  rw [Prog.run_bind_ok _ hstore] at hrun
  rw [hsent₁] at hthrough hsent₂
  have hreach : Reaches sha256 net a S blob collided w := ⟨hlisted, hgo, hacc, hthrough⟩
  have hfresh := nextAttempt_fresh (a := a) (S := S) stored
    (Bronze.previousOf a.baseline (CaptureLog.ordered S))
  generalize hentry : Bronze.entryOf a (Bronze.previousOf a.baseline (CaptureLog.ordered S))
    (Bronze.nextAttempt (CaptureLog.ordered S)) stored = e at hrun hfresh
  have hurl : e.sourceUrl = a.result.url := by rw [← hentry]; rfl
  have hnot : e ∉ S := fun he => hfresh e he rfl
  have hput : (EnergyPlatform.putNew e : Verb LRet _).run (answer sha256 net) w₂ =
      answer sha256 net w₂ (.bronze (.putNew e)) := Prog.run_perform _ _ _
  rw [show putIndex sha256 net a S blob w = w₂.sent from hsent₂.symm]
  rcases putNewEntry_cases hoth (by rw [← hentry]; rfl) (by rw [← hentry]; rfl) hfresh hw₂ with
    ⟨hno, err, w₃, h₃, hw₃⟩ | ⟨w₃, hw₃, ⟨hacted, hsure, ⟨err, h₃⟩ | h₃⟩ | ⟨hdoubt, h₃, hsent₃⟩⟩
  · rw [Prog.run_bind_error _ (hput.trans (congrArg raised h₃))] at hrun
    cases hrun
    exact .inl ⟨.inr hno, hw₃, .inl ⟨_, rfl⟩⟩
  · rw [Prog.run_bind_error _ (hput.trans (congrArg raised h₃))] at hrun
    cases hrun
    exact .inr ⟨hreach, e, hurl, .inl ⟨hacted, hsure, hw₃, hnot, .inl ⟨_, rfl⟩⟩⟩
  · rw [Prog.run_bind_ok _ (hput.trans (congrArg raised h₃))] at hrun
    cases hrun
    exact .inr ⟨hreach, e, hurl, .inl ⟨hacted, hsure, hw₃, hnot, .inr rfl⟩⟩
  · rw [Prog.run_bind_ok _ (hput.trans (congrArg raised h₃))] at hrun
    exact .inr ⟨hreach, e, hurl, .inr ⟨hdoubt, hnot, blob', w₃, hw₃, hsent₃, hblob, hrun⟩⟩

/-! ## All rounds -/

/-- No request takes an entry of the instant away. -/
theorem send_grows (hoth : net.Elsewhere a.targetId (a.scheduledFor / second)) (w : Wire)
    (rq : Request) (h : S <+: ofCapture a w.bucket) :
    S <+: ofCapture a (net.send w rq).2.bucket := by
  have hkeep := ObjectStore.request_keeps Bucket.serve rq
    (I := fun b => S <+: ofCapture a b) (fun b hb => hb.trans (Bucket.serve_grows b rq))
    (net.tries w.sent) (s := net.others w.sent w.bucket) (by rw [ofCapture, hoth]; exact h)
  exact hkeep

theorem captureLoop_grows (hoth : net.Elsewhere a.targetId (a.scheduledFor / second)) (n : Nat)
    (blob : Option Bronze.StoredBlob) (collided : Bool) {w : Wire}
    (h : S <+: ofCapture a w.bucket) :
    S <+: ofCapture a ((Bronze.captureLoop a n blob collided : Verb LRet _).run
      (answer sha256 net) w).2.bucket := by
  have hclient : ∀ {α : Type} (p : Client α) (w : Wire), S <+: ofCapture a w.bucket →
      S <+: ofCapture a (raised (p.run net.send w)).2.bucket := by
    intro α p w hw
    have hrun := Prog.run_keeps net.send (I := fun w : Wire => S <+: ofCapture a w.bucket)
      (fun w rq => send_grows hoth w rq) p hw
    rcases hp : p.run net.send w with ⟨r, w'⟩
    rw [hp] at hrun
    cases r <;> exact hrun
  refine Prog.run_keeps (answer sha256 net) (I := fun w : Wire => S <+: ofCapture a w.bucket)
    (fun w o hw => ?_) _ h
  cases o with
  | bronze c =>
    cases c with
    | entriesFor targetId at_ => exact hclient _ w hw
    | putBlob data => exact hclient _ w hw
    | putNew e => exact hclient _ w hw
    | _ => exact hw
  | _ => exact hw

/-- After a collision a capture returns an entry of its own, or raises. -/
theorem captureLoop_collided (hoth : net.Elsewhere a.targetId (a.scheduledFor / second)) (n : Nat) :
    ∀ (blob : Option Bronze.StoredBlob) (w w' : Wire) (e : CaptureEntry),
      (Bronze.captureLoop a n blob true : Verb LRet _).run (answer sha256 net) w ≠
        (.ok ⟨e, false⟩, w') := by
  induction n with
  | zero => exact fun _ _ _ _ h => by cases h
  | succ n ih =>
    intro blob w w' e hrun
    rcases captureLoop_cases hoth n blob true rfl hrun with
      ⟨-, -, ⟨err, h⟩ | ⟨h, -⟩⟩ | ⟨-, x, -, ⟨-, -, -, -, ⟨err, h⟩ | h⟩ |
        ⟨-, -, blob', w₁, -, -, -, h⟩⟩
    · cases h
    · cases h
    · cases h
    · cases h
    · exact ih blob' w₁ w' e h

/-- The baseline that was accepted is accepted again beside the entry created meanwhile. -/
theorem accepted_again {b : Bucket} (hb : ofCapture a b = S) {e : CaptureEntry}
    (hurl : e.sourceUrl = a.result.url)
    (h : ¬ Refused a (Bronze.previousOf a.baseline (CaptureLog.ordered S))) :
    ¬ Refused a (Bronze.previousOf a.baseline (CaptureLog.ordered (S ++ [e]))) := by
  rintro ⟨hnm, hno⟩
  refine h ⟨hnm, ?_⟩
  cases hbase : a.baseline with
  | given p =>
    rw [hbase] at hno
    exact hno
  | sameRun =>
    rw [hbase] at hno
    intro p hp hpurl
    obtain ⟨hpS, hpmax⟩ := CaptureLog.ordered_last hp
    have hlast : ∃ q, (CaptureLog.ordered (S ++ [e])).getLast? = some q := by
      refine Option.isSome_iff_exists.mp (List.getLast?_isSome.mpr fun hnil => ?_)
      have := (List.mem_insertionSort CaptureLog.before).mpr (List.mem_append_left [e] hpS)
      rw [← CaptureLog.ordered, hnil] at this
      exact absurd this List.not_mem_nil
    obtain ⟨q, hq⟩ := hlast
    obtain ⟨hqS, hqmax⟩ := CaptureLog.ordered_last hq
    refine hno q hq ?_
    rcases List.mem_append.mp hqS with hqS | hqS
    · -- neither is before the other, so they share their key
      have hsame : q = p := by
        subst hb
        have hkey : q.key = p.key := by
          have ht := (Bucket.mem_ofStamp.mp hqS).2.1.trans (Bucket.mem_ofStamp.mp hpS).2.1.symm
          rcases hpmax q hqS with hlt | ⟨hat, hle⟩
          · rcases hqmax p (List.mem_append_left _ hpS) with hlt' | ⟨hat', -⟩
            · exact absurd hlt' (lt_asymm hlt)
            · exact absurd hat' (ne_of_gt hlt)
          · rcases hqmax p (List.mem_append_left _ hpS) with hlt' | ⟨-, hle'⟩
            · exact absurd hat.symm (ne_of_lt hlt')
            · have hatt := le_antisymm hle hle'
              have ht' : q.targetId = p.targetId := ht
              simp only [CaptureEntry.key, ht', hat, hatt]
        exact Bucket.ofStamp_unique hqS hpS hkey
      rw [hsame]
      exact hpurl
    · rw [List.mem_singleton.mp hqS]
      exact hurl

/-! ## One fetch, one entry -/

/-- What the capture added to its instant. -/
def added (a : Bronze.CaptureArgs) (b b' : Bucket) : List CaptureEntry :=
  (ofCapture a b').filter (· ∉ ofCapture a b)

/-- A capture that returns `created = True` added the entry it returns and no other, one that raises
added at most one. -/
def OneEntry (a : Bronze.CaptureArgs) (b : Bucket) :
    Except Exn Bronze.CaptureOutcome × Wire → Prop
  | (.ok ⟨e, true⟩, w) => added a b w.bucket = [e]
  | (.ok ⟨_, false⟩, _) => True
  | (.error _, w) => (added a b w.bucket).length ≤ 1

/-- The capture comes to create its entry; the `PUT` takes effect, its answer is lost and a later
try is answered; the listing that follows is answered; the next `PUT` takes effect. -/
structure Duplicated (sha256 : Bytes → Sha256) (net : Network) (a : Bronze.CaptureArgs)
    (b : Bucket) : Prop where
  reaches : Reaches sha256 net a (ofCapture a b) none false ⟨b, 0⟩
  doubtful : Doubtful (net.tries (putIndex sha256 net a (ofCapture a b) none ⟨b, 0⟩))
  relisted : net.Through (putIndex sha256 net a (ofCapture a b) none ⟨b, 0⟩ + 1)
    (listing ((ofCapture a b).length + 1))
  again : Acted (net.tries (putIndex sha256 net a (ofCapture a b) none ⟨b, 0⟩ + 1 +
    listing ((ofCapture a b).length + 1)))

theorem added_of_same {b b' : Bucket} (h : ofCapture a b' = ofCapture a b) : added a b b' = [] := by
  rw [added, h]
  exact List.filter_eq_nil_iff.mpr fun x hx => by simpa using hx

theorem added_of_one {b b' : Bucket} {e : CaptureEntry} (h : ofCapture a b' = ofCapture a b ++ [e])
    (he : e ∉ ofCapture a b) : added a b b' = [e] := by
  rw [added, h, List.filter_append, List.filter_eq_nil_iff.mpr fun x hx => by simpa using hx]
  simp [he]

theorem added_of_two {b b' : Bucket} {e e' : CaptureEntry}
    (h : ofCapture a b ++ [e] ++ [e'] <+: ofCapture a b') (he : e ∉ ofCapture a b)
    (he' : e' ∉ ofCapture a b ++ [e]) : 2 ≤ (added a b b').length := by
  have hsub : [e, e'].Sublist (ofCapture a b') := by
    refine List.Sublist.trans ?_ h.sublist
    rw [List.append_assoc]
    exact List.sublist_append_right _ _
  have hfilter := hsub.filter (· ∉ ofCapture a b)
  have hboth : [e, e'].filter (· ∉ ofCapture a b) = [e, e'] := by
    have : e' ∉ ofCapture a b := fun h => he' (List.mem_append_left _ h)
    simp [he, this]
  rw [hboth] at hfilter
  exact hfilter.length_le

variable (sha256 net a)

/-- One fetch leaves one entry exactly when the first entry is not taken for another writer's. -/
theorem one_entry_iff (hoth : net.Elsewhere a.targetId (a.scheduledFor / second)) (b : Bucket) :
    OneEntry a b ((Bronze.capture a : Verb LRet _).run (answer sha256 net) ⟨b, 0⟩) ↔
      ¬ Duplicated sha256 net a b := by
  rcases hrun : (Bronze.capture a : Verb LRet _).run (answer sha256 net) ⟨b, 0⟩ with ⟨r, w'⟩
  rcases captureLoop_cases hoth 4 none false rfl hrun with
    ⟨hno, hw', hr⟩ | ⟨hreach, e, hurl, ⟨hacted, hsure, hw', he, hr⟩ |
      ⟨hdoubt, he, blob', w₁, hw₁, hsent₁, hblob, hrun'⟩⟩
  · have hnot : ¬ Duplicated sha256 net a b := by
      intro hd
      rcases hno with hno | hno
      · exact hno hd.reaches
      · exact hno ⟨_, hd.doubtful.1, rfl⟩
    refine iff_of_true ?_ hnot
    rcases hr with ⟨err, rfl⟩ | ⟨-, x, rfl⟩
    · simp [OneEntry, added_of_same hw']
    · exact trivial
  · refine iff_of_true ?_ fun hd => hsure hd.doubtful
    have hone := added_of_one hw' he
    rcases hr with ⟨err, rfl⟩ | rfl
    · simp [OneEntry, hone]
    · exact hone
  · have hzero : putIndex sha256 net a (ofCapture a b ++ [e]) blob' w₁ =
        w₁.sent + listing ((ofCapture a b).length + 1) := by
      rw [putIndex, payloadRequests, if_pos hblob, List.length_append]
      rfl
    rcases captureLoop_cases hoth 3 blob' true hw₁ hrun' with
      ⟨hno, hw', hr⟩ | ⟨hreach', e', -, hsecond⟩
    · have hnot : ¬ Duplicated sha256 net a b := by
        intro hd
        rw [hzero, hsent₁] at hno
        refine hno.elim (fun hno => hno ?_) fun hno => hno hd.again
        refine ⟨?_, .inr (.inl rfl), accepted_again rfl hurl hreach.accepted, ?_⟩
        · rw [hsent₁, List.length_append]
          exact hd.relisted
        · rw [payloadRequests, if_pos hblob]
          exact Network.through_zero _
      refine iff_of_true ?_ hnot
      rcases hr with ⟨err, rfl⟩ | ⟨h, -⟩
      · simp [OneEntry, added_of_one hw' he]
      · cases h
    · have htwo : Acted (net.tries (w₁.sent + listing ((ofCapture a b).length + 1))) ∧
          2 ≤ (added a b w'.bucket).length := by
        rw [← hzero]
        rcases hsecond with ⟨hacted, -, hw', he', -⟩ | ⟨hdoubt', he', blob'', w₂, hw₂, -, -, hrun''⟩
        · exact ⟨hacted, added_of_two (hw' ▸ List.prefix_rfl) he he'⟩
        · have hall : ofCapture a b ++ [e] ++ [e'] <+: ofCapture a w₂.bucket := by
            rw [hw₂]
          have hgrow : ofCapture a b ++ [e] ++ [e'] <+: ofCapture a ((Bronze.captureLoop a 3 blob''
              true : Verb LRet _).run (answer sha256 net) w₂).2.bucket :=
            captureLoop_grows hoth 3 blob'' true hall
          rw [hrun''] at hgrow
          exact ⟨⟨_, hdoubt'.1, rfl⟩, added_of_two hgrow he he'⟩
      have hrelisted := hreach'.listed
      rw [hsent₁, List.length_append] at hrelisted
      refine iff_of_false (fun hone => ?_) fun hnot =>
        hnot ⟨hreach, hdoubt, hrelisted, hsent₁ ▸ htwo.1⟩
      cases r with
      | error err =>
        have hle : (added a b w'.bucket).length ≤ 1 := hone
        omega
      | ok out =>
        obtain ⟨x, created⟩ := out
        cases created with
        | true =>
          have hx : added a b w'.bucket = [x] := hone
          rw [hx] at htwo
          exact absurd htwo.2 (by simp)
        | false => exact captureLoop_collided hoth 4 blob' w₁ w' x hrun'

end Capture

/-- An unforced capture of an instant without entries. -/
def fetchedOnce : Bronze.CaptureArgs where
  targetId := "ote"
  scheduledFor := 0
  result := ⟨"https://www.ote-cr.cz/", 200, [1], none, 0, none, none, false, []⟩
  transport := .rest
  force := false
  baseline := .given none

/-- Four attempts a request; the first try of the first conditional `PUT` fails. -/
def failingPut (f : RequestFault) : Network where
  attempts := 4
  fault i j := if i = 3 ∧ j = 0 then f else .answered
  others _ b := b

/-- The failing try was answered with a 503, before the store acted. -/
def throttled : Network := failingPut (.dropped ⟨"SlowDown", "HTTP 503"⟩)

/-- The failing try timed out, after the store acted. -/
def timedOut : Network := failingPut (.lost ⟨"request_failed", "timed out"⟩)

def fetchOver (net : Network) : Except Exn Bronze.CaptureOutcome × Wire :=
  (Bronze.capture fetchedOnce : Verb StoreCall.Ret _).run (answer (fun _ => 0) net) ⟨.empty, 0⟩

theorem one_entry_throttled : OneEntry fetchedOnce .empty (fetchOver throttled) := by
  have hsure : ¬ Duplicated (fun _ => 0) throttled fetchedOnce .empty :=
    fun h => absurd h.doubtful (by decide +kernel)
  have hoth : throttled.Elsewhere fetchedOnce.targetId (fetchedOnce.scheduledFor / second) :=
    fun _ _ => rfl
  rw [fetchOver]
  exact (@one_entry_iff _ StoreCall.Ret (fun _ => 0) throttled fetchedOnce hoth .empty).mpr hsure

/-- One fetch, two entries, and the second is returned as created. -/
theorem lost_response_duplicates : ¬ OneEntry fetchedOnce .empty (fetchOver timedOut) ∧
    (∃ e w, fetchOver timedOut = (.ok ⟨e, true⟩, w) ∧ e.attempt = 2 ∧
      (added fetchedOnce .empty w.bucket).map CaptureEntry.attempt = [1, 2]) := by
  have hrun : ∃ e w, fetchOver timedOut = (.ok ⟨e, true⟩, w) ∧ e.attempt = 2 ∧
      (added fetchedOnce .empty w.bucket).map CaptureEntry.attempt = [1, 2] :=
    ⟨_, _, rfl, rfl, by decide⟩
  refine ⟨fun h => ?_, hrun⟩
  obtain ⟨e, w, hw, -, hadded⟩ := hrun
  rw [hw] at h
  have hone : added fetchedOnce .empty w.bucket = [e] := h
  have hlen := congrArg List.length hadded
  rw [hone] at hlen
  simp at hlen

end S3

end EnergyPlatform
