import Mathlib.Tactic.Common
import VynxHttp.Result

/-!
# Pollers

The three pollers turn what the operating system reports into `EventData`.
What they are asked to watch for, and whether the operating system accepts it,
is left to the operating system.
-/

namespace VynxHttp

abbrev NativeHandle := Int32

def invalidHandle : NativeHandle := -1

abbrev EventType := UInt32

namespace EventType

def none : EventType := 0
def read : EventType := 1
def write : EventType := 2
def error : EventType := 16
def hangup : EventType := 32

def flagIf (condition : Bool) (flag : EventType) : EventType :=
  if condition then flag else none

end EventType

/-- The handlers, which are told apart by their addresses. -/
abbrev HandlerId := ℕ

structure EventData where
  handle : NativeHandle
  events : EventType
  userData : HandlerId
  deriving DecidableEq, Repr

inductive Poller where
  | epoll
  | kqueue
  | iocp
  deriving DecidableEq, Repr

/-! ## What the operating system reports -/

def epollIn : UInt32 := 0x1
def epollOut : UInt32 := 0x4
def epollErr : UInt32 := 0x8
def epollHup : UInt32 := 0x10
def epollRdhup : UInt32 := 0x2000

def evfiltRead : Int16 := -1
def evfiltWrite : Int16 := -2
def evError : UInt16 := 0x4000
def evEof : UInt16 := 0x8000

structure Kevent where
  filter : Int16
  flags : UInt16
  deriving DecidableEq, Repr

namespace Poller

/-- What a poller is told of a socket: event bits, a filter with flags, or
nothing. -/
def Report : Poller → Type
  | .epoll => UInt32
  | .kqueue => Kevent
  | .iocp => Unit

/-- `convert_back_events` of the poller. -/
def convertBackEvents : (poller : Poller) → poller.Report → EventType
  | .epoll, (events : UInt32) =>
      .flagIf (events &&& epollIn != 0) .read |||
        .flagIf (events &&& epollOut != 0) .write |||
        .flagIf (events &&& epollErr != 0) .error |||
        .flagIf (events &&& (epollHup ||| epollRdhup) != 0) .hangup
  | .kqueue, (kev : Kevent) =>
      .flagIf (kev.filter == evfiltRead) .read |||
        .flagIf (kev.filter == evfiltWrite) .write |||
        .flagIf (kev.flags &&& evError != 0) .error |||
        .flagIf (kev.flags &&& evEof != 0) .hangup
  | .iocp, _ => .read

end Poller

/-- A readiness event: the socket it is about, what is reported of it, and the
pointer which the socket was registered with. -/
structure Readiness (poller : Poller) where
  handle : NativeHandle
  report : poller.Report
  userData : HandlerId

/-- How a wait ends; a wait which is interrupted or times out reports
nothing. -/
inductive WaitOutcome (poller : Poller) where
  | reported (batch : List (Readiness poller))
  | interrupted
  | failed

namespace Poller

/-- Whether the operating system accepts a handle is its own affair. -/
def add (_poller : Poller) (accepted : Bool) : Result Unit :=
  if accepted then success else .error .socketError

/-- Where the handle is removed first, this cannot fail. -/
def modify (poller : Poller) (accepted : Bool) : Result Unit :=
  poller.add accepted

def remove : Poller → Bool → Result Unit
  | .epoll, accepted => if accepted then success else .error .socketError
  | .kqueue, _ | .iocp, _ => success

/-- Only a `kevent` carries the handle. -/
def reportedHandle : Poller → NativeHandle → NativeHandle
  | .epoll, _ | .iocp, _ => -1
  | .kqueue, handle => handle

def eventData (poller : Poller) (ready : Readiness poller) : EventData where
  handle := poller.reportedHandle ready.handle
  events := poller.convertBackEvents ready.report
  userData := ready.userData

def wait (poller : Poller) : WaitOutcome poller → Result (List EventData)
  | .reported batch => .ok (batch.map poller.eventData)
  | .interrupted => .ok []
  | .failed => .error .socketError

end Poller

end VynxHttp
