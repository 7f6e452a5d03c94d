import Libael.Base

/-!
# Libael.EPoll.Events

`Events` (`include/event.h`) and its two translations to and from the bits of
`epoll` (`lib/epoll.cc`). The constants are the source's, `Stream` included: its
value is `0x16`, which overlaps `Write` and `Close`.
-/

namespace Libael

/-- `Events` -/
abbrev Events := UInt32

namespace Events

def Read : Events := 0x1
def Write : Events := 0x2
def Close : Events := 0x4
def Error : Events := 0x8
def Stream : Events := 0x16

/-- `events & bits`, as a condition. -/
def has (events bits : Events) : Bool := events &&& bits != 0

end Events

/-- The bits of `struct epoll_event::events`. -/
abbrev EPollEvents := UInt32

namespace EPollEvents

def EPOLLIN : EPollEvents := 0x001
def EPOLLOUT : EPollEvents := 0x004
def EPOLLERR : EPollEvents := 0x008
def EPOLLHUP : EPollEvents := 0x010
def EPOLLRDHUP : EPollEvents := 0x2000
def EPOLLET : EPollEvents := 0x80000000

end EPollEvents

open EPollEvents

/-- `GetEPollEventsFromEvents` -/
def getEPollEventsFromEvents (events : Events) : EPollEvents :=
  if events.has Events.Close then EPOLLIN ||| EPOLLOUT ||| EPOLLRDHUP
  else
    (if events.has Events.Read then EPOLLIN else 0) |||
    (if events.has Events.Write then EPOLLOUT else 0) |||
    (if events.has Events.Stream then EPOLLRDHUP else 0)

/-- `GetEventsFromEpollEvents` -/
def getEventsFromEpollEvents (epollEvents : EPollEvents) : Events :=
  (if Events.has epollEvents EPOLLIN then Events.Read else 0) |||
  (if Events.has epollEvents EPOLLOUT then Events.Write else 0) |||
  (if Events.has epollEvents EPOLLRDHUP || Events.has epollEvents EPOLLHUP then Events.Close else 0)
    |||
  (if Events.has epollEvents EPOLLERR then Events.Error else 0)

/-- A descriptor reported readable is `Read` for its handler. -/
theorem has_read_of_readable {epollEvents : EPollEvents}
    (h : Events.has epollEvents EPOLLIN = true) :
    (getEventsFromEpollEvents epollEvents).has Events.Read = true := by
  unfold getEventsFromEpollEvents
  rw [if_pos h]
  split <;> split <;> split <;> decide

end Libael
