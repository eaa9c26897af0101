/-
# Safety.BlockPages -- the page loop goes over a block once

A server hands out a block's transactions in pages of 25.  Asked for a page past the last
transaction, one server answers with an empty page and another with an error.  The loop stops
at a page that is not full, so it asks past the end exactly where the number of transactions
is a multiple of 25, and there it is left to what the server says: an error ends the pass,
after every transaction of the block was gone over, and every pass after it ends the same way.

`wp_scanPages_paged` says what the loop does from any page on; `block_paging` is the whole
block.
-/
import ComputerMoney.Kernel.Scan
import ComputerMoney.Kernel.Script

namespace ComputerMoney.Safety

set_option autoImplicit false

open Theory Theory.Program Kernel

namespace BlockPages

/-! ## The server -/

/-- What a server answers past the last transaction of a block. -/
inductive PastEnd where
  | empty
  | fails
  deriving DecidableEq, Repr

def PastEnd.Answers : PastEnd → Except Error (List EsploraTx) → Prop
  | .empty, answer => answer = .ok []
  | .fails, answer => ∃ error, answer = .error error

/-- The server pages this block, and the disk works. -/
def Paged (hash : String) (txs : List EsploraTx) (past : PastEnd) : (op : Op) → op.Ans → Prop
  | .blockTxs hash' start, answer => hash' = hash → pageSize ∣ start →
      if start < txs.length then answer = .ok ((txs.drop start).take pageSize)
      else past.Answers answer
  | .append _ _, answer => answer = .ok
  | _, _ => True

def paging (host : Host) (hash : String) (txs : List EsploraTx) (past : PastEnd) :
    Interp sig Journal :=
  (interp host).recorded.restrict fun _ op answer => Paged hash txs past op answer

/-! ## What the loop goes over -/

/-- The transactions of one page of this block. -/
def pageOf (hash : String) : Event sig → List EsploraTx
  | ⟨.blockTxs hash' _, answer⟩ => match answer with
      | .ok txs => if hash' = hash then txs else []
      | .error _ => []
  | _ => []

/-- The transactions of the block that the loop was handed, in order. -/
def handed (hash : String) (past : List (Event sig)) : List EsploraTx :=
  past.reverse.flatMap (pageOf hash)

@[simp] theorem handed_cons (hash : String) (event : Event sig) (past : List (Event sig)) :
    handed hash (event :: past) = handed hash past ++ pageOf hash event := by
  simp [handed]

/-- The payments in these transactions are booked. -/
def BooksAll (host : Host) (txs : List EsploraTx) (entries : List Entry) : Prop :=
  ∀ tx ∈ txs, ∀ f ∈ host.txMatches tx, dustFloor ≤ f.sats →
    Ledger.hasSpOutput entries tx.txid f.vout = true

/-- The loop went over each transaction of the block once and booked what it pays, and it
ended without an error. -/
structure Covers (host : Host) (led : Handle) (hash : String) (txs : List EsploraTx) (s : Journal)
    (result : Except Error (List Found)) (s' : Journal) : Prop where
  finished : ∃ found, result = .ok found
  once : handed hash s'.2 = handed hash s.2 ++ txs
  booked : BooksAll host txs (s'.1.mem led)

/-- The block is covered, from whatever state and in every run that takes enough pages. -/
def PagesThrough (host : Host) (txs : List EsploraTx) (past : PastEnd) : Prop :=
  ∀ (led : Handle) (hash : String) (pages : ℕ) (found : List Found) (s : Journal)
    (result : Except Error (List Found)) (s' : Journal), txs.length < pageSize * pages →
    Exec (paging host hash txs past) (scanPages host led hash pages 0 found) s result s' →
    Covers host led hash txs s result s'

/-! ## The loop, call by call -/

section Loop

variable {host : Host} {hash : String} {txs : List EsploraTx} {past : PastEnd} {led : Handle}

/-- From `s` to `s'` the loop was handed these transactions, and its instance lost nothing. -/
structure WentOver (led : Handle) (hash : String) (page : List EsploraTx) (s s' : Journal) :
    Prop where
  handed : handed hash s'.2 = handed hash s.2 ++ page
  grew : s.1.mem led ⊆ s'.1.mem led

theorem WentOver.refl (s : Journal) : WentOver led hash [] s s :=
  ⟨(List.append_nil _).symm, List.Subset.refl _⟩

theorem WentOver.trans {page rest : List EsploraTx} {s s₁ s' : Journal}
    (first : WentOver led hash page s s₁) (second : WentOver led hash rest s₁ s') :
    WentOver led hash (page ++ rest) s s' := by
  constructor
  · rw [second.handed, first.handed, List.append_assoc]
  · exact List.Subset.trans first.grew second.grew

/-- A call that asks for no page. -/
theorem handed_beside {event : Event sig} {calls : List (Event sig)}
    (beside : pageOf hash event = []) : handed hash (event :: calls) = handed hash calls := by
  rw [handed_cons, beside, List.append_nil]

/-- A payment that is booked stays so. -/
theorem hasSpOutput_mono {before after : List Entry} {txid : String} {vout : ℕ}
    (grew : before ⊆ after) (booked : Ledger.hasSpOutput before txid vout = true) :
    Ledger.hasSpOutput after txid vout = true := by
  rw [Ledger.hasSpOutput_iff] at booked ⊢
  obtain ⟨e, member, is⟩ := booked
  exact ⟨e, grew member, is⟩

theorem BooksAll.mono {before after : List Entry} {page : List EsploraTx}
    (booked : BooksAll host page before) (grew : before ⊆ after) : BooksAll host page after :=
  fun tx member f pays above => hasSpOutput_mono grew (booked tx member f pays above)

theorem BooksAll.append {entries : List Entry} {page rest : List EsploraTx}
    (first : BooksAll host page entries) (second : BooksAll host rest entries) :
    BooksAll host (page ++ rest) entries := by
  intro tx member
  rcases List.mem_append.1 member with here | there
  · exact first tx here
  · exact second tx there

/-- The disk works, so a payment is booked afterwards whether or not it was before. -/
theorem wp_recordSpReceived_paged {txid : String} {vout sats : ℕ} {tweak : String} {s : Journal} :
    wp (paging host hash txs past) (fun _ _ _ => True) (fun result s' =>
        (∃ fresh, result = .ok fresh) ∧ WentOver led hash [] s s' ∧
          Ledger.hasSpOutput (s'.1.mem led) txid vout = true)
      (Ledger.recordSpReceived led txid vout sats tweak) s := by
  apply wp_bind.2
  intro es allowed
  obtain rfl : es = s.1.mem led := allowed.1
  refine ⟨trivial, bindPost_ok.2 ?_⟩
  split
  · rename_i known
    refine ⟨⟨_, rfl⟩, ⟨?_, List.Subset.refl _⟩, known⟩
    exact (handed_beside rfl).trans (List.append_nil _).symm
  · apply wp_bind.2
    intro answer allowed
    obtain rfl : answer = .ok := allowed.2
    refine ⟨trivial, bindPost_ok.2 ⟨⟨_, rfl⟩, ⟨?_, ?_⟩, ?_⟩⟩
    · exact (handed_beside rfl).trans ((handed_beside rfl).trans (List.append_nil _).symm)
    · show s.1.mem led ⊆ Function.update s.1.mem led (s.1.mem led ++ [_]) led
      simp
    · show Ledger.hasSpOutput (Function.update s.1.mem led _ led) txid vout = true
      simp [Ledger.hasSpOutput, Entry.spOutpoint?]

theorem wp_bookMatches_paged {txid : String} {fs : List SpFound} {found : List Found}
    {s : Journal} :
    wp (paging host hash txs past) (fun _ _ _ => True) (fun result s' =>
        (∃ found, result = .ok found) ∧ WentOver led hash [] s s' ∧
          ∀ f ∈ fs, dustFloor ≤ f.sats → Ledger.hasSpOutput (s'.1.mem led) txid f.vout = true)
      (bookMatches led txid fs found) s := by
  induction fs generalizing found s with
  | nil => exact ⟨⟨_, rfl⟩, WentOver.refl s, nofun⟩
  | cons f fs ih =>
      unfold bookMatches
      split
      · rename_i dust
        apply wp_mono ih
        rintro result s' ⟨ends, went, booked⟩
        refine ⟨ends, went, fun g member above => ?_⟩
        rcases List.mem_cons.1 member with rfl | later
        · omega
        · exact booked g later above
      · apply wp_bind.2
        apply wp_mono wp_recordSpReceived_paged
        rintro _ s₁ ⟨⟨fresh, rfl⟩, went, here⟩
        apply wp_mono ih
        rintro result s' ⟨ends, went', booked⟩
        refine ⟨ends, went.trans went', fun g member above => ?_⟩
        rcases List.mem_cons.1 member with rfl | later
        · exact hasSpOutput_mono went'.grew here
        · exact booked g later above

theorem wp_bookPage_paged {page : List EsploraTx} {found : List Found} {s : Journal} :
    wp (paging host hash txs past) (fun _ _ _ => True) (fun result s' =>
        (∃ found, result = .ok found) ∧ WentOver led hash [] s s' ∧
          BooksAll host page (s'.1.mem led))
      (bookPage host led page found) s := by
  induction page generalizing found s with
  | nil => exact ⟨⟨_, rfl⟩, WentOver.refl s, nofun⟩
  | cons tx page ih =>
      apply wp_bind.2
      apply wp_mono wp_bookMatches_paged
      intro result s₁ ⟨⟨found', is⟩, went, here⟩
      subst is
      apply wp_mono ih
      intro result s' ⟨ends, went', booked⟩
      refine ⟨ends, went.trans went', fun tx' member f pays above => ?_⟩
      rcases List.mem_cons.1 member with rfl | later
      · exact hasSpOutput_mono went'.grew (here f pays above)
      · exact booked tx' later f pays above

/-- What the server does with a request past the end decides whether the loop finishes. -/
def Finishes (txs : List EsploraTx) (past : PastEnd) : Prop :=
  ¬ (past = .fails ∧ pageSize ∣ txs.length)

/-- What the loop leaves from `start` on: the rest of the block gone over and booked, and an
error exactly where it had to ask past the end and was refused. -/
structure Rest (host : Host) (led : Handle) (hash : String) (txs : List EsploraTx)
    (past : PastEnd) (start : ℕ) (s : Journal) (result : Except Error (List Found))
    (s' : Journal) : Prop where
  went : WentOver led hash (txs.drop start) s s'
  booked : BooksAll host (txs.drop start) (s'.1.mem led)
  ends : (∃ found, result = .ok found) ↔ Finishes txs past

/-- The last page of a block whose length is no multiple. -/
theorem not_dvd_of_short {start length : ℕ} (aligned : pageSize ∣ start) (inside : start < length)
    (short : length < start + pageSize) : ¬ pageSize ∣ length := by
  intro ⟨n, is⟩
  obtain ⟨k, rfl⟩ := aligned
  unfold pageSize at *
  omega

/-- Past the end the server hands out nothing. -/
theorem PastEnd.Answers.pageOf {start : ℕ} {answer : Except Error (List EsploraTx)}
    (answered : past.Answers answer) : pageOf hash ⟨.blockTxs hash start, answer⟩ = [] := by
  cases past with
  | empty =>
      obtain rfl := answered
      simp [BlockPages.pageOf]
  | fails =>
      obtain ⟨error, rfl⟩ := answered
      rfl

/-- The page past the last transaction. -/
theorem rest_past {start : ℕ} {s s' : Journal} {answer : Except Error (List EsploraTx)}
    {result : Except Error (List Found)} (aligned : pageSize ∣ start) (all : start = txs.length)
    (answered : past.Answers answer) (went : WentOver led hash [] s s')
    (same : (∃ found, result = .ok found) ↔ ∃ page, answer = .ok page) :
    Rest host led hash txs past start s result s' := by
  have nothing : txs.drop start = [] := by simp [all]
  constructor
  · rw [nothing]
    exact went
  · rw [nothing]
    exact nofun
  · rw [same]
    cases past with
    | empty => simp_all [Finishes, PastEnd.Answers]
    | fails =>
        obtain ⟨error, rfl⟩ := answered
        simp [Finishes, ← all, aligned]

/-- **The page loop**, from any page of the block on. -/
theorem wp_scanPages_paged {pages start : ℕ} {found : List Found} {s : Journal}
    (aligned : pageSize ∣ start) (inside : start ≤ txs.length)
    (enough : txs.length < start + pageSize * pages) :
    wp (paging host hash txs past) (fun _ _ _ => True) (Rest host led hash txs past start s)
      (scanPages host led hash pages start found) s := by
  induction pages generalizing start found s with
  | zero => omega
  | succ pages ih =>
      apply wp_bind.2
      intro answer allowed
      refine ⟨trivial, ?_⟩
      have served := allowed.2 rfl aligned
      by_cases more : start < txs.length
      · -- There is a page: its transactions are gone over before its length is looked at.
        rw [if_pos more] at served
        subst served
        have page : handed hash (⟨.blockTxs hash start, .ok ((txs.drop start).take pageSize)⟩ ::
            s.2) = handed hash s.2 ++ (txs.drop start).take pageSize := by
          simp [pageOf]
        have length : ((txs.drop start).take pageSize).length =
            min pageSize (txs.length - start) := by
          simp
        apply bindPost_ok.2
        split
        · rename_i empty
          have none : ((txs.drop start).take pageSize).length = 0 :=
            List.length_eq_zero_iff.2 (List.isEmpty_iff.1 empty)
          have full : 0 < pageSize := by decide
          omega
        · apply wp_bind.2
          apply wp_mono wp_bookPage_paged
          intro result s₁ ⟨⟨found', is⟩, went, booked⟩
          subst is
          have here : WentOver led hash ((txs.drop start).take pageSize) s s₁ := by
            refine ⟨?_, went.grew⟩
            rw [went.handed, List.append_nil]
            exact page
          apply bindPost_ok.2
          split
          · rename_i short
            have last : (txs.drop start).take pageSize = txs.drop start :=
              List.take_of_length_le (by rw [List.length_drop]; omega)
            rw [last] at here booked
            have odd := not_dvd_of_short aligned more (by omega)
            exact ⟨here, booked, iff_of_true ⟨_, rfl⟩ fun ⟨_, divides⟩ => odd divides⟩
          · rename_i full
            have next : start + ((txs.drop start).take pageSize).length = start + pageSize := by
              omega
            have splits : (txs.drop start).take pageSize ++ txs.drop (start + pageSize) =
                txs.drop start := by
              rw [← List.drop_drop, List.take_append_drop]
            rw [next]
            rw [Nat.mul_succ] at enough
            apply wp_mono (ih (Nat.dvd_add aligned (Nat.dvd_refl _)) (by omega) (by omega))
            intro result s' rest
            refine ⟨?_, ?_, rest.ends⟩
            · rw [← splits]
              exact here.trans rest.went
            · rw [← splits]
              exact (booked.mono rest.went.grew).append rest.booked
      · have all : start = txs.length := by omega
        rw [if_neg more] at served
        have went : WentOver led hash [] s
            ((paging host hash txs past).next s (.blockTxs hash start) answer) :=
          ⟨(handed_beside served.pageOf).trans (List.append_nil _).symm, List.Subset.refl _⟩
        cases answer with
        | error error => exact rest_past aligned all served went (by simp)
        | ok page =>
            cases past with
            | empty =>
                obtain rfl : page = [] := by simpa [PastEnd.Answers] using served
                exact rest_past aligned all served went (by simp)
            | fails =>
                obtain ⟨error, is⟩ := served
                cases is

/-- A complete run of the loop over the block. -/
theorem exec_scanPages_paged {pages : ℕ} {found : List Found} {s s' : Journal}
    {result : Except Error (List Found)} (enough : txs.length < pageSize * pages)
    (run : Exec (paging host hash txs past) (scanPages host led hash pages 0 found) s result s') :
    Rest host led hash txs past 0 s result s' :=
  wp_exec (wp_scanPages_paged (Nat.dvd_zero _) (Nat.zero_le _) (by omega)) run

end Loop

/-! ## One server of each kind -/

/-- The page from `start` on. -/
def pageFrom (txs : List EsploraTx) (past : PastEnd) (start : ℕ) :
    Except Error (List EsploraTx) :=
  if start < txs.length then .ok ((txs.drop start).take pageSize)
  else match past with
    | .empty => .ok []
    | .fails => .error "GET /block/txs -> 404"

/-- The server, as a script. -/
def answer (host : Host) (txs : List EsploraTx) (past : PastEnd) (w : World) : (op : Op) → op.Ans
  | .blockTxs _ start => pageFrom txs past start
  | op => Script.silent.answer host w op

def handle (host : Host) (txs : List EsploraTx) (past : PastEnd) (op : Op) (s : Journal) :
    op.Ans × Journal :=
  (answer host txs past s.1 op, (s.1.after op (answer host txs past s.1 op),
    ⟨op, answer host txs past s.1 op⟩ :: s.2))

theorem answer_served (host : Host) (hash : String) (txs : List EsploraTx) (past : PastEnd)
    (op : Op) (w : World) : (interp host).allowed w op (answer host txs past w op) ∧
      Paged hash txs past op (answer host txs past w op) := by
  have silent := Script.silent.allowed host w op
  cases op with
  | blockTxs hash' start =>
      refine ⟨trivial, fun _ _ => ?_⟩
      show if start < txs.length then pageFrom txs past start = _ else
        past.Answers (pageFrom txs past start)
      unfold pageFrom
      by_cases more : start < txs.length
      · rw [if_pos more, if_pos more]
      · rw [if_neg more, if_neg more]
        cases past with
        | empty => rfl
        | fails => exact ⟨_, rfl⟩
  | append led entry => exact ⟨trivial, rfl⟩
  | _ => exact ⟨silent, trivial⟩

/-- Every program has a run on it. -/
theorem handle_exec {α : Type} (host : Host) (hash : String) (txs : List EsploraTx)
    (past : PastEnd) (p : Prog α) (s : Journal) :
    Exec (paging host hash txs past) p s (run (handle host txs past) p s).1
      (run (handle host txs past) p s).2 :=
  run_exec id p s (fun op s => answer_served host hash txs past op s.1) fun _ _ => rfl

end BlockPages

open BlockPages

/-- **A block is gone over once and without an error, unless it fills its last page on a
server that refuses to be asked past the end.** -/
theorem block_paging (host : Host) (txs : List EsploraTx) (past : PastEnd) :
    PagesThrough host txs past ↔ ¬ (past = .fails ∧ pageSize ∣ txs.length) := by
  constructor
  · intro through
    let p := scanPages host 0 "" (txs.length + 1) 0 []
    have enough : txs.length < pageSize * (txs.length + 1) := by
      unfold pageSize
      omega
    have run := handle_exec host "" txs past p (World.blank, [])
    exact (exec_scanPages_paged enough run).ends.1 (through 0 "" _ _ _ _ _ enough run).finished
  · intro finishes led hash pages found s result s' enough run
    have rest := exec_scanPages_paged enough run
    exact ⟨rest.ends.2 finishes, rest.went.handed, rest.booked⟩

/-- A transaction that pays nobody here. -/
def BlockPages.plainTx : EsploraTx := ⟨sampleTxid, [], []⟩

/-- A block of one full page, on a server that refuses: the loop goes over it and ends in the
server's error. -/
theorem full_page_refused : ¬ ∀ (host : Host) (txs : List EsploraTx) (past : PastEnd),
    1 ≤ txs.length → PagesThrough host txs past := by
  intro always
  let host := Host.sample .bitcoin .default
  let txs := List.replicate 25 plainTx
  let p := scanPages host 0 "" 2 0 []
  have through := always host txs .fails (by decide)
  have run := handle_exec host "" txs .fails p (World.blank, [])
  have ended : (Program.run (handle host txs .fails) p (World.blank, [])).1 =
      Except.error "GET /block/txs -> 404" := by decide +kernel
  obtain ⟨found, is⟩ := (through 0 "" 2 [] _ _ _ (by decide) run).finished
  rw [ended] at is
  cases is

end ComputerMoney.Safety
