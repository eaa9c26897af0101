/-
# Kernel.Script -- one concrete environment

An environment in which the disk works and everything outside is answered from a script:
the clock, the finished transactions, the network's verdict on each, the chain's counts
and deposits, the pages.  It is one of the environments the permissive reading allows
(`Script.exec`), so a run driven by it is a run every general result speaks of; the
concrete states in this development are reached this way.
-/
import ComputerMoney.Kernel.Net

namespace ComputerMoney.Kernel

set_option autoImplicit false

open Theory Theory.Program

/-- A mainnet address and the script it pays. -/
def sampleAddress : Address :=
  ⟨"0014751e76e8199196d454941c45d1b3a323f1433bd6", "bc1qw508d6qejxtdg4y5r3zarvary0c5xw7kv8f3t4"⟩

def sampleTxid : String := "4a5e1e4baab89f3a32518a88c31bc87f618f76673e2cc77ab2127b7afdeda33b"

/-- An installation that knows one address and no code. -/
def Host.sample (network : Network) (policy : Policy) : Host where
  network := network
  policy := policy
  parseAddress text :=
    if text = sampleAddress.display then .ok sampleAddress else .error "base58 error"
  bech32m _ := .error "invalid checksum"
  pubkeyFromSlice bytes := .ok bytes
  walletAddress _ := .ok sampleAddress.display
  spScanKeypair := .ok ()
  spSpendKeypair := .ok ()
  parsePublicKey _ := .ok ()
  parseSocketAddr _ := .ok ()
  parseTerms _ := .error "expected value at line 1 column 1"
  txMatches _ := []

structure Script where
  now : ℕ
  finish : BuildRequest → Except Error Psbt
  verdict : Tx → Except Error Unit
  confirmations : String → Except Error ℕ
  deposits : String → Except Error (List Deposit)
  page : String → Option String → Except Error Resp

/-- Nothing is known outside: no build finishes, no count, no deposit, no page. -/
def Script.silent : Script where
  now := 0
  finish _ := .error "no utxo"
  verdict _ := .ok ()
  confirmations _ := .error "no count"
  deposits _ := .ok []
  page _ _ := .error "no route"

namespace Script

variable (host : Host) (script : Script)

def answer (w : World) : (op : Op) → op.Ans
  | .openLedger => .ok w.fresh
  | .entries led => w.mem led
  | .append _ _ => .ok
  | .writeSidecar _ _ => .ok
  | .readSidecar txid => .ok (w.sidecar txid)
  | .removeSidecar _ _ => .ok ()
  | .listSidecars => .ok (w.sidecars.map Prod.fst)
  | .nowUnix => (max w.clock script.now : ℕ)
  | .loadPolicy => .ok host.policy
  | .syncWallet => .ok ()
  | .finishPsbt request => script.finish request
  | .sign _ => .ok ()
  | .broadcast tx => script.verdict tx
  | .confirmations txid => script.confirmations txid
  | .depositsTo address => script.deposits address
  | .eprintln _ => ()
  | .connect _ _ => .ok ()
  | .wireSend _ => .ok ()
  | .httpGet url payment => script.page url payment
  | .scanLock _ => ()
  | .scanUnlock => ()
  | .loadCheckpoint => .error "no checkpoint"
  | .saveCheckpoint _ => .ok
  | .tipHeight => .error "no route"
  | .blockHash _ => .error "no route"
  | .blockTxs _ _ => .error "no route"
  | .outspend _ _ => .error "no route"

def handle (op : Op) (w : World) : op.Ans × World :=
  (script.answer host w op, w.after op (script.answer host w op))

theorem allowed (w : World) (op : Op) : (interp host).allowed w op (script.answer host w op) := by
  cases op with
  | listSidecars => intro name; exact Iff.rfl
  | finishPsbt request | broadcast tx | confirmations txid | depositsTo address
  | httpGet url payment => trivial
  | _ => first | rfl | trivial

/-- A scripted run is a run, under any assumption the script meets. -/
theorem exec {assume : Guarantee sig World} {α : Type}
    (assumed : ∀ op w, assume w op (script.answer host w op)) (p : Prog α) (w : World) :
    Exec ((interp host).restrict assume) p w (run (script.handle host) p w).1
      (run (script.handle host) p w).2 :=
  run_exec id p w (fun op w => ⟨allowed host script w op, assumed op w⟩) fun _ _ => rfl

/-- The handler, with the calls it answered kept beside the world. -/
def record (op : Op) (s : Journal) : op.Ans × Journal :=
  (script.answer host s.1 op,
    s.1.after op (script.answer host s.1 op), ⟨op, script.answer host s.1 op⟩ :: s.2)

theorem exec_recorded {α : Type} (p : Prog α) (s : Journal) :
    Exec (interp host).recorded p s (run (script.record host) p s).1
      (run (script.record host) p s).2 :=
  run_exec id p s (fun op s => allowed host script s.1 op) fun _ _ => rfl

/-- So is one cut after `n` calls. -/
theorem reach {assume : Guarantee sig World} {α : Type}
    (assumed : ∀ op w, assume w op (script.answer host w op)) (n : ℕ) (p : Prog α) (w : World) :
    Reach ((interp host).restrict assume) p w (cut (script.handle host) n p w) :=
  cut_reach id n p w (fun op w => ⟨allowed host script w op, assumed op w⟩) fun _ _ => rfl

/-- And each call of its trace is a call some run makes. -/
theorem calls {assume : Guarantee sig World} {α : Type}
    (assumed : ∀ op w, assume w op (script.answer host w op)) {n : ℕ} {p : Prog α} {w w' : World}
    {op : Op} {answer : op.Ans}
    (made : (trace (script.handle host) p w)[n]? = some (w', ⟨op, answer⟩)) :
    Calls ((interp host).restrict assume) p w w' op answer := by
  refine trace_calls id p w ?_ ?_ (List.mem_of_getElem? made)
  · exact fun op w => ⟨allowed host script w op, assumed op w⟩
  · exact fun _ _ => rfl

end Script

end ComputerMoney.Kernel
