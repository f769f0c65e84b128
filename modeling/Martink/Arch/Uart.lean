import Martink.Arch.Avr.UartRx
import Martink.Arch.Stm32.UartRx

/-!
# Receiving on both chips

On the AVR the buffer has 32 slots and on the STM32 each buffer has 64, one of which stays free.
-/

namespace Martink

/-- **Receiving.** In every run, each receiver returns the bytes it kept in order and loses only
those that found its buffer full, and on the STM32 the calls read the buffer that the interrupt
fills. -/
theorem uart_receives_in_order :
    (∀ events s, Uart0Rx.run uart0RxStart events = some s →
      RxLaw 5 Uart0Rx.next Uart0Rx.port (events.flatMap Uart0Rx.Event.data) s) ∧
    (∀ events s, Stm32Rx.run stm32RxStart events = some s → ∀ devId,
      RxLaw 6 Stm32Rx.next (Stm32Rx.port devId)
        (events.flatMap (Stm32Rx.Event.data (Stm32Rx.device devId))) s) ∧
    ∀ devId : Fin 3, deviceBuf devId = some (Stm32Rx.irqBuf (Stm32Rx.device devId)) := by
  refine ⟨fun events s h ↦ ?_, fun events s h devId ↦ ?_, Stm32Rx.deviceBuf_eq⟩
  · obtain ⟨hinv, hhandled⟩ := Uart0Rx.inv_of_run h
    exact hhandled ▸ hinv.law
  · obtain ⟨hinv, hhandled⟩ := Stm32Rx.inv_of_run h
    exact hhandled _ ▸ hinv.law devId

/-- A byte that comes in while `getc` has the interrupt off, on either chip. -/
theorem uart_receives_in_order_two :
    (∃ s, Uart0Rx.run uart0RxStart
        [.receive ⟨0, 1⟩, .getc 0, .receive ⟨0, 2⟩, .main, .main, .main] = some s ∧
      s.returns = [1] ∧ RxLaw 5 Uart0Rx.next Uart0Rx.port [1, 2] s) ∧
    ∃ s, Stm32Rx.run stm32RxStart
        [.receive .usart2 1, .getc 1, .receive .usart2 2, .main, .main, .main] = some s ∧
      s.returns 1 = [1] ∧ RxLaw 6 Stm32Rx.next (Stm32Rx.port 1) [1, 2] s :=
  ⟨⟨_, rfl, rfl, uart_receives_in_order.1
      [.receive ⟨0, 1⟩, .getc 0, .receive ⟨0, 2⟩, .main, .main, .main] _ rfl⟩,
    ⟨_, rfl, rfl, uart_receives_in_order.2.1
      [.receive .usart2 1, .getc 1, .receive .usart2 2, .main, .main, .main] _ rfl 1⟩⟩

end Martink
