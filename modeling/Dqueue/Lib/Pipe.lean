import Dqueue.Lib.Framing

/-!
One direction of a connection that may lose the end of what is in flight. Once
it has lost something it takes no more.
-/

set_option autoImplicit false

namespace Framing

variable {α β ε φ : Type}

structure Pipe (β : Type) where
  inFlight : List β
  isOpen : Bool

namespace Pipe

def fresh : Pipe β := ⟨[],true⟩

def send (c : Pipe β) (bs : List β) : Pipe β :=
  if c.isOpen then { c with inFlight := c.inFlight ++ bs } else c

def cut (c : Pipe β) (k : Nat) : Pipe β := ⟨c.inFlight.take k,false⟩

def rest (c : Pipe β) (bs : List β) : Pipe β := { c with inFlight := bs }

/-- What is in flight is the beginning of a sequence of frames, and all of it as
long as the pipe is open. -/
def Carries (wire : α → List β) (good : α → Prop) (c : Pipe β) : Prop :=
  ∃ as : List α, (∀ a ∈ as, good a) ∧ c.inFlight <+: as.flatMap wire ∧
    (c.isOpen = true → c.inFlight = as.flatMap wire)

variable {wire : α → List β} {good : α → Prop} {c : Pipe β}

theorem carries_fresh : (fresh : Pipe β).Carries wire good :=
  ⟨[],by simp,by simp [fresh],by simp [fresh]⟩

theorem Carries.mono {good' : α → Prop} (h : c.Carries wire good) (hg : ∀ a, good a → good' a) :
    c.Carries wire good' := by
  obtain ⟨as,has,hp,he⟩ := h
  exact ⟨as,fun a ha => hg a (has a ha),hp,he⟩

theorem Carries.send {a : α} (h : c.Carries wire good) (ha : good a) :
    (c.send (wire a)).Carries wire good := by
  obtain ⟨as,has,hp,he⟩ := h
  unfold Pipe.send
  split
  · rename_i ho
    have happ : c.inFlight ++ wire a = (as ++ [a]).flatMap wire := by simp [he ho]
    refine ⟨as ++ [a],fun b hb => ?_,by simp [happ],fun _ => happ⟩
    rcases List.mem_append.mp hb with hb | hb
    · exact has b hb
    · rwa [List.mem_singleton.mp hb]
  · exact ⟨as,has,hp,he⟩

theorem Carries.cut (h : c.Carries wire good) (k : Nat) : (c.cut k).Carries wire good := by
  obtain ⟨as,has,hp,_⟩ := h
  exact ⟨as,has,(List.take_prefix k _).trans hp,by simp [Pipe.cut]⟩

theorem Carries.receive {next : List β → Pull β ε φ} {frame : α → φ} {fits : α → Prop}
    (hf : Frames next wire frame fits) (hg : ∀ a, good a → fits a) (h : c.Carries wire good)
    {x : φ} {bs : List β} (hn : next c.inFlight = .item x bs) :
    ∃ a, good a ∧ x = frame a ∧ (c.rest bs).Carries wire good := by
  obtain ⟨as,has,hp,he⟩ := h
  cases as with
  | nil =>
    have hnil : c.inFlight = [] := by simpa using hp
    rw [hnil,hf.empty] at hn
    cases hn
  | cons a as =>
    have hga := has a (by simp)
    have hrest : ∀ b ∈ as, good b := fun b hb => has b (by simp [hb])
    rcases hf.next_of_prefix (hg a hga) hp with hw | ⟨bs',hi,hp'⟩
    · rw [hw] at hn
      cases hn
    · rw [hi] at hn
      cases hn
      refine ⟨a,hga,rfl,as,hrest,hp',fun ho => ?_⟩
      have hwhole := hf.whole a (as.flatMap wire) (hg a hga)
      rw [← List.flatMap_cons,← he ho,hi] at hwhole
      cases hwhole
      rfl

def Queued (wire : α → List β) (as : List α) (c : Pipe β) : Prop :=
  c.isOpen = true ∧ c.inFlight = as.flatMap wire

theorem queued_fresh : (fresh : Pipe β).Queued wire [] := ⟨rfl,rfl⟩

theorem Queued.send {as : List α} (h : c.Queued wire as) (a : α) :
    (c.send (wire a)).Queued wire (as ++ [a]) := by
  obtain ⟨ho,hf⟩ := h
  simp [Queued,Pipe.send,ho,hf]

theorem Queued.receive {next : List β → Pull β ε φ} {frame : α → φ} {fits : α → Prop}
    (hf : Frames next wire frame fits) {as : List α} (h : c.Queued wire as)
    (hg : ∀ a ∈ as, fits a) {x : φ} {bs : List β} (hn : next c.inFlight = .item x bs) :
    ∃ a as', as = a :: as' ∧ x = frame a ∧ (c.rest bs).Queued wire as' := by
  obtain ⟨ho,hin⟩ := h
  cases as with
  | nil =>
    rw [hin,List.flatMap_nil,hf.empty] at hn
    cases hn
  | cons a as =>
    rw [hin,List.flatMap_cons,hf.whole a _ (hg a (by simp))] at hn
    cases hn
    exact ⟨a,as,rfl,rfl,ho,rfl⟩

/-- Of the frames that were written the first have been read, and the next ones are in
flight: all the others as long as nothing has been lost. -/
def Transfers (wire : α → List β) (written read : List α) (c : Pipe β) : Prop :=
  ∃ as, read ++ as <+: written ∧ c.inFlight <+: as.flatMap wire ∧
    (c.isOpen = true → read ++ as = written ∧ c.inFlight = as.flatMap wire)

variable {written read : List α}

theorem transfers_fresh : (fresh : Pipe β).Transfers wire [] [] :=
  ⟨[],by simp,by simp [fresh],by simp [fresh]⟩

theorem Transfers.begins (h : c.Transfers wire written read) : read <+: written := by
  obtain ⟨as,hp,-⟩ := h
  exact (List.prefix_append read as).trans hp

/-- Everything has been read once nothing is in flight on a pipe that has lost nothing. -/
theorem Transfers.all (h : c.Transfers wire written read) (nonempty : ∀ a, wire a ≠ [])
    (isOpen : c.isOpen = true) (empty : c.inFlight = []) : read = written := by
  obtain ⟨as,-,-,ho⟩ := h
  obtain ⟨hall,hflight⟩ := ho isOpen
  cases as with
  | nil => simpa using hall
  | cons a as =>
    rw [empty,List.flatMap_cons] at hflight
    exact absurd (List.append_eq_nil_iff.mp hflight.symm).1 (nonempty a)

theorem Transfers.send (h : c.Transfers wire written read) (a : α) :
    (c.send (wire a)).Transfers wire (written ++ [a]) read := by
  obtain ⟨as,hp,hf,ho⟩ := h
  unfold Pipe.send
  split
  · rename_i hopen
    obtain ⟨hall,hflight⟩ := ho hopen
    have hall' : read ++ (as ++ [a]) = written ++ [a] := by rw [← List.append_assoc,hall]
    have hflight' : c.inFlight ++ wire a = (as ++ [a]).flatMap wire := by simp [hflight]
    exact ⟨as ++ [a],by simp [hall'],by simp [hflight'],fun _ => ⟨hall',hflight'⟩⟩
  · rename_i hclosed
    exact ⟨as,hp.trans (List.prefix_append written [a]),hf,fun hopen => absurd hopen hclosed⟩

theorem Transfers.cut (h : c.Transfers wire written read) (k : Nat) :
    (c.cut k).Transfers wire written read := by
  obtain ⟨as,hp,hf,-⟩ := h
  exact ⟨as,hp,(List.take_prefix k _).trans hf,by simp [Pipe.cut]⟩

theorem Transfers.receive {next : List β → Pull β ε φ} {frame : α → φ} {fits : α → Prop}
    (hf : Frames next wire frame fits) (h : c.Transfers wire written read)
    (hg : ∀ a ∈ written, fits a) {x : φ} {bs : List β} (hn : next c.inFlight = .item x bs) :
    ∃ a ∈ written, x = frame a ∧ (c.rest bs).Transfers wire written (read ++ [a]) := by
  obtain ⟨as,hp,hflight,ho⟩ := h
  cases as with
  | nil =>
    have hnil : c.inFlight = [] := by simpa using hflight
    rw [hnil,hf.empty] at hn
    cases hn
  | cons a as =>
    have ha : a ∈ written := hp.subset (by simp)
    have hread : read ++ [a] ++ as = read ++ a :: as := by simp
    rcases hf.next_of_prefix (hg a ha) hflight with hw | ⟨bs',hi,hp'⟩
    · rw [hw] at hn
      cases hn
    · rw [hi] at hn
      cases hn
      refine ⟨a,ha,rfl,as,hread ▸ hp,hp',fun hopen => ?_⟩
      obtain ⟨hall,hwire⟩ := ho hopen
      have hwhole := hf.whole a (as.flatMap wire) (hg a ha)
      rw [← List.flatMap_cons,← hwire,hi] at hwhole
      cases hwhole
      exact ⟨hread.trans hall,rfl⟩

/-- What can happen to a pipe that is read by `next`, with what is written and what is read
in the step. -/
inductive Step (wire : α → List β) (next : List β → Pull β ε φ) (c : Pipe β) :
    List α → List φ → Pipe β → Prop where
  | idle : Step wire next c [] [] c
  | send (a : α) : Step wire next c [a] [] (c.send (wire a))
  | cut (k : Nat) : Step wire next c [] [] (c.cut k)
  | receive {x : φ} {bs : List β} (item : next c.inFlight = .item x bs) :
      Step wire next c [] [x] (c.rest bs)

theorem Transfers.step {next : List β → Pull β ε φ} {frame : α → φ} {fits : α → Prop}
    (hf : Frames next wire frame fits) (h : c.Transfers wire written read)
    (hg : ∀ a ∈ written, fits a) {as : List α} {xs : List φ} {c' : Pipe β}
    (hs : c.Step wire next as xs c') :
    ∃ got, xs = got.map frame ∧ c'.Transfers wire (written ++ as) (read ++ got) := by
  cases hs with
  | idle => exact ⟨[],rfl,by simpa using h⟩
  | send a => exact ⟨[],rfl,by simpa using h.send a⟩
  | cut k => exact ⟨[],rfl,by simpa using h.cut k⟩
  | receive item =>
    obtain ⟨a,-,rfl,hrest⟩ := h.receive hf hg item
    exact ⟨[a],rfl,by simpa using hrest⟩

end Pipe

end Framing
